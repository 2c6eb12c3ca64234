import HarnessSphere.Export.Groups
import HarnessSphere.Runtime.Pipeline

/-! # What a failing collector costs

The drain and the exporter together, whatever the collector answers. A refused request ends the export of
its batch and nothing else: the metrics of the batch are recorded by then, the requests before it have
been taken, and the drain goes on with the next batch.
-/

namespace HarnessSphere

open Machine

/-- The requests of a batch in the order they are sent, each with the signals that go with it. -/
def parcels (batch : List Signal) : List (Request × List Signal) :=
  (if spansOf batch = [] then []
    else [(.trace (buildTraceRequest (spansOf batch)), (spansOf batch).map .span)]) ++
  (if logsOf batch = [] then []
    else [(.logs (buildLogsRequest (logsOf batch)), (logsOf batch).map .log)]) ++
  (if histogramsOf batch = [] then []
    else [(.metrics (buildHistogramRequest (histogramsOf batch)), (histogramsOf batch).map .histogram)])

theorem perm_parcels (batch : List Signal) :
    batch.Perm ((metricsOf batch).map .metric ++ (parcels batch).flatMap Prod.snd) := by
  have hKinds : (parcels batch).flatMap Prod.snd = (spansOf batch).map .span ++
      (logsOf batch).map .log ++ (histogramsOf batch).map .histogram := by
    rw [parcels, List.flatMap_append, List.flatMap_append]
    congr 1
    · congr 1
      · split_ifs with hNone <;> simp [hNone]
      · split_ifs with hNone <;> simp [hNone]
    · split_ifs with hNone <;> simp [hNone]
  rw [hKinds, ← List.append_assoc, ← List.append_assoc]
  exact perm_by_kind batch

theorem requests_sorted {σ : Type*} (e : OtlpExporter σ) (batch : List Signal) :
    Sorting.requests ⟨e, spansOf batch, logsOf batch, histogramsOf batch⟩ =
      (parcels batch).map Prod.fst := by
  rw [Sorting.requests, parcels, List.map_append, List.map_append]
  congr 1
  · congr 1
    · split_ifs <;> rfl
    · split_ifs <;> rfl
  · split_ifs <;> rfl

/-- One call of `export`: what the clients answered to whatever they were sent, and what came of it. -/
structure Report where
  clients : Clients
  batch : List Signal
  sent : List Request
  result : Except ExportError Unit

namespace Report

def delivered (r : Report) : List (Request × List Signal) :=
  (parcels r.batch).takeWhile fun parcel => (r.clients parcel.1).isOk

/-- The refused request, and those that were not sent because of it. -/
def lost (r : Report) : List (Request × List Signal) :=
  (parcels r.batch).dropWhile fun parcel => (r.clients parcel.1).isOk

/-- What was sent is what was delivered and the refused request, whose error is the result. -/
structure Told (r : Report) : Prop where
  sent : r.sent = (r.delivered ++ r.lost.head?.toList).map Prod.fst
  ok : r.result = .ok () ↔ r.lost = []
  failed : ∀ e, r.result = .error e → ∃ parcel msg, r.lost.head? = some parcel ∧
    r.clients parcel.1 = .error msg ∧ e = parcel.1.failed msg

theorem perm_batch (r : Report) :
    r.batch.Perm ((metricsOf r.batch).map .metric ++ r.delivered.flatMap Prod.snd ++
      r.lost.flatMap Prod.snd) := by
  rw [List.append_assoc, ← List.flatMap_append, delivered, lost, List.takeWhile_append_dropWhile]
  exact perm_parcels r.batch

end Report

theorem send_parcels (clients : Clients) (ps : List (Request × List Signal)) :
    let ok := fun parcel : Request × List Signal => (clients parcel.1).isOk
    (send clients (ps.map Prod.fst)).1 =
        (ps.takeWhile ok ++ (ps.dropWhile ok).head?.toList).map Prod.fst ∧
      ((send clients (ps.map Prod.fst)).2 = .ok () ↔ ps.dropWhile ok = []) ∧
      ∀ e, (send clients (ps.map Prod.fst)).2 = .error e → ∃ parcel msg,
        (ps.dropWhile ok).head? = some parcel ∧ clients parcel.1 = .error msg ∧
          e = parcel.1.failed msg := by
  intro ok
  induction ps with
  | nil => exact ⟨rfl, ⟨fun _ => rfl, fun _ => rfl⟩, fun e he => by cases he⟩
  | cons parcel ps ih =>
    obtain ⟨hSent, hOk, hFailed⟩ := ih
    rw [List.map_cons, send]
    cases hAnswer : clients parcel.1 with
    | ok =>
      have hTaken : ok parcel = true := by
        simp only [ok, hAnswer]
        rfl
      rw [List.takeWhile_cons_of_pos hTaken, List.dropWhile_cons_of_pos hTaken]
      refine ⟨?_, hOk, hFailed⟩
      rw [List.cons_append, List.map_cons, ← hSent]
    | error msg =>
      have hRefused : ¬ ok parcel = true := by
        simp only [ok, hAnswer]
        exact Bool.false_ne_true
      rw [List.takeWhile_cons_of_neg hRefused, List.dropWhile_cons_of_neg hRefused]
      refine ⟨rfl, iff_of_false (by simp) (List.cons_ne_nil _ _), ?_⟩
      intro e he
      exact ⟨parcel, msg, rfl, hAnswer, (Except.error.inj he).symm⟩

/-- A step of the pipeline, or the end of the export under way with these answers of the clients. -/
inductive DeliveryEvent where
  | pipeline (e : PipelineEvent)
  | answered (clients : Clients)

/-- The pipeline with its exporter, and what `export_batch` has seen of each export. -/
structure Delivery (σ : Type*) where
  pipeline : Pipeline
  exporter : OtlpExporter σ
  reports : List Report

namespace Delivery

variable {σ : Type*} (sdk : Sdk σ)

def new (capacity batchSize : Nat) : Delivery σ := ⟨.new capacity batchSize, .new sdk, []⟩

def answer (d : Delivery σ) (clients : Clients) (batch : List Signal) (p : Pipeline) : Delivery σ :=
  let (exporter, sent, result) := d.exporter.exportBatch sdk clients batch
  ⟨p, exporter, d.reports ++ [⟨clients, batch, sent, result⟩]⟩

/-- An export ends with its answers only. -/
def step (d : Delivery σ) : DeliveryEvent → Option (Delivery σ)
  | .pipeline (.exported _) => none
  | .pipeline e => (d.pipeline.step e).map fun p => { d with pipeline := p }
  | .answered clients =>
    match d.pipeline.batches.getLast? with
    | some batch =>
      (d.pipeline.step (.exported (d.exporter.exportBatch sdk clients batch).2.2)).map
        (d.answer sdk clients batch)
    | none => none

/-- The batch of the export under way. -/
def inFlight (d : Delivery σ) : List (List Signal) :=
  match d.pipeline.drain with
  | .exporting _ => d.pipeline.batches.getLast?.toList
  | _ => []

/-- The batches of the exports that are over. -/
def answered (d : Delivery σ) : List (List Signal) := d.reports.map Report.batch

/-- Every export that is over has recorded its metrics, and its report tells the rest. -/
structure Settled (d : Delivery σ) : Prop where
  batches : d.pipeline.batches = d.answered ++ d.inFlight
  exporter : d.exporter = d.answered.flatten.foldl (OtlpExporter.accept sdk) (.new sdk)
  told : ∀ r ∈ d.reports, r.Told

variable {sdk} {d d' : Delivery σ}

@[simp] theorem pipeline_answer (clients : Clients) (batch : List Signal) (p : Pipeline) :
    (d.answer sdk clients batch p).pipeline = p := rfl

/-- The metrics of a batch are recorded whatever the clients answer. -/
theorem exporter_answer (clients : Clients) (batch : List Signal) (p : Pipeline) :
    (d.answer sdk clients batch p).exporter = batch.foldl (OtlpExporter.accept sdk) d.exporter :=
  OtlpExporter.exportBatch_exporter sdk clients d.exporter batch

theorem answered_answer (clients : Clients) (batch : List Signal) (p : Pipeline) :
    (d.answer sdk clients batch p).answered = d.answered ++ [batch] := List.map_append

theorem settled_new (capacity batchSize : Nat) : Settled sdk (new sdk capacity batchSize) :=
  ⟨rfl, rfl, fun r hr => by cases hr⟩

theorem step_cases {e : DeliveryEvent} (hStep : d.step sdk e = some d') :
    (∃ e' p, e = .pipeline e' ∧ (∀ result, e' ≠ .exported result) ∧ d.pipeline.step e' = some p ∧
      d' = { d with pipeline := p }) ∨
    ∃ clients batch last, e = .answered clients ∧ d.pipeline.drain = .exporting last ∧
      d.pipeline.batches.getLast? = some batch ∧
      d' = d.answer sdk clients batch
        { d.pipeline with drain := if last then .ended else .selecting } := by
  unfold step at hStep
  split at hStep
  · cases hStep
  · rename_i e' hNot
    obtain ⟨p, hp, rfl⟩ := Option.map_eq_some_iff.mp hStep
    exact .inl ⟨e', p, rfl, hNot, hp, rfl⟩
  · rename_i clients
    split at hStep
    · rename_i batch hLast
      obtain ⟨p, hp, rfl⟩ := Option.map_eq_some_iff.mp hStep
      cases Pipeline.act_of_step hp with
      | exported result last hDrain => exact .inr ⟨clients, batch, last, rfl, hDrain, hLast, rfl⟩
    · cases hStep

theorem pipeline_of_step {e : DeliveryEvent} (hStep : d.step sdk e = some d') :
    ∃ e', d.pipeline.step e' = some d'.pipeline := by
  obtain ⟨e', p, -, -, hp, rfl⟩ | ⟨clients, batch, last, -, hDrain, -, rfl⟩ := step_cases hStep
  · exact ⟨e', hp⟩
  · refine ⟨.exported (.ok ()), ?_⟩
    simp only [Pipeline.step, hDrain]
    rfl

/-- Short of the end of an export, the drain hands over one batch at a time. -/
theorem batches_of_step {p p' : Pipeline} {e : PipelineEvent} (hNot : ∀ result, e ≠ .exported result)
    (hStep : p.step e = some p') :
    p'.drain = p.drain ∧ p'.batches = p.batches ∨
      p.drain = .selecting ∧
        ∃ last batch, p'.drain = .exporting last ∧ p'.batches = p.batches ++ [batch] := by
  cases Pipeline.act_of_step hStep with
  | emitted i signal source hSource =>
    obtain ⟨-, -, hDrain, -, hBatches⟩ := p.frame_of_emit source signal
    exact .inl ⟨hDrain, hBatches⟩
  | filled signal rest hDrain hChannel hFull => exact .inr ⟨hDrain, false, _, rfl, rfl⟩
  | receivedNone hDrain hChannel hClosed => exact .inr ⟨hDrain, true, _, rfl, rfl⟩
  | flushed hDrain hBuffer => exact .inr ⟨hDrain, false, _, rfl, rfl⟩
  | exported result last hDrain => exact absurd rfl (hNot result)
  | _ => exact .inl ⟨rfl, rfl⟩

theorem told_exportBatch (e : OtlpExporter σ) (clients : Clients) (batch : List Signal) :
    Report.Told ⟨clients, batch, (e.exportBatch sdk clients batch).2.1,
      (e.exportBatch sdk clients batch).2.2⟩ := by
  have hSend : (e.exportBatch sdk clients batch).2 = send clients ((parcels batch).map Prod.fst) := by
    rw [OtlpExporter.exportBatch, foldl_put, ← requests_sorted e batch]
    rfl
  rw [hSend]
  obtain ⟨hSent, hOk, hFailed⟩ := send_parcels clients (parcels batch)
  exact ⟨hSent, hOk, hFailed⟩

theorem settled_of_step {e : DeliveryEvent} (h : Settled sdk d) (hStep : d.step sdk e = some d') :
    Settled sdk d' := by
  obtain ⟨e', p, rfl, hNot, hp, rfl⟩ | ⟨clients, batch, last, rfl, hDrain, hLast, rfl⟩ :=
    step_cases hStep
  · refine ⟨?_, h.exporter, h.told⟩
    have hBatches := h.batches
    obtain ⟨hDrain, hSame⟩ | ⟨hSelecting, last, batch, hExporting, hMore⟩ := batches_of_step hNot hp
    · simp only [inFlight, answered, hDrain, hSame] at hBatches ⊢
      exact hBatches
    · simp only [inFlight, hSelecting, List.append_nil] at hBatches
      simp only [inFlight, hExporting, hMore, List.getLast?_concat, Option.toList_some, answered]
      rw [hBatches]
      rfl
  · have hBatches := h.batches
    simp only [inFlight, hDrain, hLast, Option.toList_some] at hBatches
    refine ⟨?_, ?_, ?_⟩
    · rw [answered_answer, ← hBatches]
      cases last <;> simp [inFlight]
    · rw [answered_answer, exporter_answer, List.flatten_append, List.foldl_append, ← h.exporter,
        List.flatten_singleton]
    · intro r hr
      obtain hOld | hNew := List.mem_append.mp hr
      · exact h.told r hOld
      · obtain rfl := List.mem_singleton.mp hNew
        exact told_exportBatch d.exporter clients batch

theorem settled_of_run {capacity batchSize : Nat} {events : List DeliveryEvent}
    (hRun : Run (step sdk) Any (new sdk capacity batchSize) events d) :
    Settled sdk d ∧ Pipeline.Conserved batchSize d.pipeline := by
  apply hRun.invariant (I := fun d => Settled sdk d ∧ Pipeline.Conserved batchSize d.pipeline)
  · exact ⟨settled_new capacity batchSize, Pipeline.conserved_new capacity batchSize⟩
  · rintro a e b ⟨hSettled, hConserved⟩ - hStep
    obtain ⟨e', hPipeline⟩ := pipeline_of_step hStep
    exact ⟨settled_of_step hSettled hStep, Pipeline.conserved_of_step hConserved hPipeline⟩

theorem perm_reports (reports : List Report) :
    ((reports.map Report.batch).flatten).Perm
      ((metricsOf (reports.map Report.batch).flatten).map .metric ++
        reports.flatMap (fun r => r.delivered.flatMap Prod.snd) ++
        reports.flatMap fun r => r.lost.flatMap Prod.snd) := by
  have hMetrics : (metricsOf (reports.map Report.batch).flatten).map Signal.metric =
      reports.flatMap fun r => (metricsOf r.batch).map .metric := by
    rw [← List.flatMap_def, metricsOf, List.filterMap_flatMap, List.map_flatMap]
    rfl
  have hEach : (reports.flatMap Report.batch).Perm (reports.flatMap fun r =>
      (metricsOf r.batch).map .metric ++ r.delivered.flatMap Prod.snd ++ r.lost.flatMap Prod.snd) :=
    List.Perm.flatMap_left _ fun r _ => r.perm_batch
  rw [hMetrics, ← List.flatMap_def]
  refine hEach.trans ((List.flatMap_append_perm _ _ _).symm.trans ?_)
  exact (List.flatMap_append_perm _ _ _).symm.append_right _

/-- Whatever the collector answers, in every run: the exporter has recorded what it would have recorded
with any other answers, every signal the channel took is in one place, and a signal is lost only in an
export that failed, with the refused request or after it. -/
theorem a_refusal_costs_no_more_than_its_batch (sdk : Sdk σ) (capacity batchSize : Nat)
    (events : List DeliveryEvent) (d : Delivery σ)
    (hRun : Run (step sdk) Any (new sdk capacity batchSize) events d) :
    (∀ clients, d.exporter = (OtlpExporter.new sdk).exportAll sdk clients d.answered) ∧
    d.pipeline.accepted.Perm
      ((metricsOf d.answered.flatten).map .metric ++
        d.reports.flatMap (fun r => r.delivered.flatMap Prod.snd) ++
        d.reports.flatMap (fun r => r.lost.flatMap Prod.snd) ++ d.inFlight.flatten ++
        d.pipeline.buffer ++ d.pipeline.channel) ∧
    ∀ r ∈ d.reports, r.Told := by
  obtain ⟨hSettled, hConserved⟩ := settled_of_run hRun
  refine ⟨fun clients => ?_, ?_, hSettled.told⟩
  · rw [OtlpExporter.exportAll_eq]
    exact hSettled.exporter
  · rw [hConserved.signals, hSettled.batches, List.flatten_append]
    exact (((perm_reports d.reports).append_right _).append_right _).append_right _

section Sample

open ContainerCollector

def refuseTraces : Clients
  | .trace _ => .error "unavailable"
  | _ => .ok ()

/-- A span, a metric and a log in one batch, for a collector with these answers. -/
def oneBatch (clients : Clients) : List DeliveryEvent :=
  [.pipeline (.added hostDescriptor), .pipeline (.emitted 0 (.span (sampleSpan 1 []))),
    .pipeline (.emitted 0 Pipeline.uptime),
    .pipeline (.emitted 0 (.log ⟨.info, "ready", [], 1500, [], []⟩)), .pipeline .received,
    .pipeline .received, .pipeline .received, .answered clients]

def afterRefusal : Delivery Streams := after (step sampleSdk) (new sampleSdk 8 3) (oneBatch refuseTraces)

theorem a_refused_trace_takes_the_log_with_it :
    afterRefusal.pipeline.accepted.Perm
      ((metricsOf afterRefusal.answered.flatten).map .metric ++
        afterRefusal.reports.flatMap (fun r => r.lost.flatMap Prod.snd)) ∧
      afterRefusal.exporter = (OtlpExporter.new sampleSdk).exportAll sampleSdk sampleClients
        afterRefusal.answered := by
  have hCosts := a_refusal_costs_no_more_than_its_batch sampleSdk 8 3 (oneBatch refuseTraces)
    afterRefusal (run_after rfl)
  exact ⟨hCosts.2.1, hCosts.1 sampleClients⟩

end Sample

end Delivery

end HarnessSphere
