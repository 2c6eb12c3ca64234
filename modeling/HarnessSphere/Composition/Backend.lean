import HarnessSphere.Composition.Ticks
import HarnessSphere.Export.Readings
import HarnessSphere.Runtime.Watcher

/-! # From the sources to the backend

The tasks of the runtime run the program's sources, and the drain hands what they say to the OTLP
exporter. What the exporter holds under the name of a source was written by that source, and a source
that retires leaves zeroes behind it.
-/

namespace HarnessSphere

open Machine

namespace Watcher

/-- Tasks say what the sources of the program say under their descriptors. -/
def ofSources (w : Watcher) : WatcherEvent → Prop
  | .process (.task i (.emitted signal)) =>
    ∀ t, w.process.supervisor.tasks[i]? = some t →
      ∃ s : SignalSource, s.Made ∧ s.descriptor = t.desc ∧ s.Says signal
  | .process (.task i (.stopSeen terminal)) =>
    ∀ t, w.process.supervisor.tasks[i]? = some t →
      ∃ s : SignalSource, s.Made ∧ s.descriptor = t.desc ∧ s.retire = terminal
  | _ => True

/-- An emission of a source of the program. -/
def Sourced (e : Emission) : Prop :=
  ∃ s : SignalSource, s.Made ∧ s.descriptor = e.source ∧ s.Says e.signal

/-- What of the emissions has been handed to the exporter. -/
def exported (w : Watcher) : List Emission :=
  (w.pipeline.emissions.filter Emission.accepted).take w.pipeline.batches.flatten.length

variable {batchSize : Nat} {w w' : Watcher} {e : WatcherEvent}

theorem Coupled.exported_eq (h : Coupled batchSize w) :
    w.exported.map Emission.stamped = w.pipeline.batches.flatten := by
  have hPrefix : w.pipeline.batches.flatten <+: w.pipeline.accepted :=
    ⟨w.pipeline.buffer ++ w.pipeline.channel, by rw [h.conserved.signals, List.append_assoc]⟩
  rw [exported, List.map_take]
  exact (List.prefix_iff_eq_take.mp hPrefix).symm

theorem emissions_of_act (h : Coupled batchSize w) {e : ProcessEvent} {p : Process}
    (hAct : Process.Act w.process e p) {x : Emission} (hx : x ∈ (w.hear e).pipeline.emissions) :
    x ∈ w.pipeline.emissions ∨ ∃ i signal t, e = .task i (.emitted signal) ∧
      w.process.supervisor.tasks[i]? = some t ∧ x.source = t.desc ∧ x.signal = signal := by
  obtain ⟨i, signal, t, rfl, hTask, -, hHear⟩ | ⟨-, hHear⟩ := h.hear hAct
  · obtain ⟨accepted, hEmissions⟩ := emissions_emit w.pipeline t.desc signal
    rw [hHear] at hx
    dsimp only at hx
    rw [hEmissions] at hx
    obtain hOld | hNew := List.mem_append.mp hx
    · exact .inl hOld
    · rw [List.mem_singleton.mp hNew]
      exact .inr ⟨i, signal, t, rfl, hTask, rfl, rfl⟩
  · rw [hHear] at hx
    exact .inl hx

theorem sourced_of_run {criticalThreshold : UInt32} {boot : List SourceDescriptor} {capacity : Nat}
    {events : List WatcherEvent}
    (hRun : Run step ofSources (new criticalThreshold boot capacity batchSize) events w) :
    Coupled batchSize w ∧ ∀ x ∈ w.pipeline.emissions, Sourced x := by
  apply hRun.invariant (I := fun w => Coupled batchSize w ∧ ∀ x ∈ w.pipeline.emissions, Sourced x)
  · exact ⟨coupled_new criticalThreshold boot capacity batchSize, fun x hx => by cases hx⟩
  · rintro a e b ⟨hCoupled, hSourced⟩ hOk hStep
    refine ⟨coupled_of_step hCoupled hStep, ?_⟩
    obtain ⟨e', p, rfl, hAct, rfl⟩ | ⟨e', p, rfl, hDrain, rfl⟩ := step_cases hStep
    · intro x hx
      obtain hOld | ⟨i, signal, t, rfl, hTask, hSource, hSignal⟩ := emissions_of_act hCoupled hAct hx
      · exact hSourced x hOld
      · obtain ⟨s, hMade, hDesc, hSays⟩ := hOk t hTask
        exact ⟨s, hMade, hDesc.trans hSource.symm, hSignal ▸ hSays⟩
    · change ∀ x ∈ p.emissions, Sourced x
      rw [(frame_of_drain hDrain).2.2]
      exact hSourced

/-- What a sourced emission brings to the exporter: a metric that the catalogue knows. -/
theorem Sourced.metric {x : Emission} (h : Sourced x) : ∃ (s : SignalSource) (m : Metric), s.Made ∧
    s.descriptor = x.source ∧ s.Says m.intoSignal ∧
    x.stamped = (m.stamp x.source.layer).intoSignal ∧ Known (m.stamp x.source.layer) := by
  obtain ⟨s, hMade, hDesc, hSays⟩ := h
  obtain ⟨m, hSignal, -⟩ := SignalSource.filed_of_says hSays
  rw [hSignal] at hSays
  refine ⟨s, m, hMade, hDesc, hSays, ?_, known_of_says hSays⟩
  rw [Emission.stamped, hSignal]
  rfl

theorem written_cons (m : Metric) (signal : Signal) (signals : List Signal) :
    written m (signal :: signals) = written m [signal] ++ written m signals :=
  written_append m [signal] signals

/-- Where the others write nothing to a stream, they need not be looked at. -/
theorem written_filter {α : Type} (m : Metric) (signal : α → Signal) (keep : α → Bool) (xs : List α)
    (hOther : ∀ x ∈ xs, ¬ keep x → written m [signal x] = []) :
    written m (xs.map signal) = written m ((xs.filter keep).map signal) := by
  induction xs with
  | nil => rfl
  | cons x xs ih =>
    have hRest := ih fun y hy => hOther y (List.mem_cons_of_mem x hy)
    rw [List.map_cons, written_cons, hRest]
    by_cases hKeep : keep x
    · rw [List.filter_cons_of_pos hKeep, List.map_cons]
      exact (written_cons m _ _).symm
    · rw [List.filter_cons_of_neg hKeep, hOther x List.mem_cons_self hKeep, List.nil_append]

/-- Sources of another name write nothing to the streams of a source. -/
theorem written_of_other {x y : Emission} (hx : Sourced x) (hy : Sourced y) {m : Metric}
    (hm : x.stamped = m.intoSignal) (hName : y.source.name ≠ x.source.name) :
    written m [y.stamped] = [] := by
  obtain ⟨s, n, hMade, hDesc, hSays, hStamped, -⟩ := hx.metric
  obtain ⟨s', n', hMade', hDesc', hSays', hStamped', -⟩ := hy.metric
  obtain rfl := Signal.metric.inj (hm.symm.trans hStamped)
  have hSeries : (n'.stamp y.source.layer).series ≠ (n.stamp x.source.layer).series := by
    apply SignalSource.series_ne_of_name hMade' hMade ?_ hSays' hSays
    rwa [hDesc, hDesc']
  rw [hStamped']
  simp [written, Metric.intoSignal, hSeries]

theorem held_of_name {σ : Type*} {sdk : Sdk σ} (hSdk : sdk.Documented) (clients : Clients)
    (hCoupled : Coupled batchSize w) (hSourced : ∀ x ∈ w.pipeline.emissions, Sourced x) {x : Emission}
    (hx : x ∈ w.pipeline.emissions) {m : Metric} (hm : x.stamped = .metric m) {agg : Aggregation}
    (hAgg : Aggregation.ofKind m.kind = some agg) :
    ((OtlpExporter.new sdk).exportAll sdk clients w.pipeline.batches).held sdk m =
      agg.result (written m
        ((w.exported.filter fun y => y.source.name = x.source.name).map Emission.stamped)) := by
  have hExported (y : Emission) (hy : y ∈ w.exported) : Sourced y :=
    hSourced y (List.mem_filter.mp (List.mem_of_mem_take hy)).1
  rw [OtlpExporter.held_exportAll hSdk clients hAgg, ← hCoupled.exported_eq]
  · rw [written_filter m Emission.stamped (fun y => y.source.name = x.source.name)]
    intro y hy hOther
    exact written_of_other (hSourced x hx) (hExported y hy) hm (by simpa using hOther)
  · rw [← hCoupled.exported_eq]
    intro m' hm'
    obtain ⟨y, hy, hStamped⟩ := List.mem_map.mp hm'
    obtain ⟨s, n, -, -, -, hn, hKnown⟩ := (hSourced x hx).metric
    obtain ⟨s', n', -, -, -, hn', hKnown'⟩ := (hExported y hy).metric
    obtain rfl := Signal.metric.inj (hm.symm.trans hn)
    obtain rfl := Signal.metric.inj (hStamped.symm.trans hn')
    exact hKnown.separate hKnown'

/-- At every moment the exporter holds for a metric of a source what the exported emissions of that name
have written to it, whatever the others did and however the drain cut it into batches. -/
theorem a_name_owns_its_streams {σ : Type*} (sdk : Sdk σ) (hSdk : sdk.Documented) (clients : Clients)
    (criticalThreshold : UInt32) (boot : List SourceDescriptor) (capacity batchSize : Nat)
    (events : List WatcherEvent) (w : Watcher)
    (hRun : Run step ofSources (new criticalThreshold boot capacity batchSize) events w)
    (x : Emission) (hx : x ∈ w.pipeline.emissions) (m : Metric) (hm : x.stamped = .metric m)
    (agg : Aggregation) (hAgg : Aggregation.ofKind m.kind = some agg) :
    ((OtlpExporter.new sdk).exportAll sdk clients w.pipeline.batches).held sdk m =
      agg.result (written m
        ((w.exported.filter fun y => y.source.name = x.source.name).map Emission.stamped)) := by
  obtain ⟨hCoupled, hSourced⟩ := sourced_of_run hRun
  exact held_of_name hSdk clients hCoupled hSourced hx hm hAgg

/-- What a task emits at its retirement is what a source of its descriptor emits there. -/
def Retires (desc : SourceDescriptor) (terminal : List Signal) : Prop :=
  ∃ s : SignalSource, s.Made ∧ s.descriptor = desc ∧ s.retire = terminal

structure Retiring (t : Task) : Prop where
  under : ∀ terminal rest, t.point = .retiring terminal rest → Retires t.desc terminal
  ended : ∀ terminal, t.point = .ended (.retired terminal) → Retires t.desc terminal
  blocks : ∃ before after, t.SentBlocks before after

theorem retired_of_act {now : Nat} {room : Bool} {t t' : Task} {e : TaskEvent}
    {fatal : Option FatalSignal} (hAct : Task.Act now room t e t' fatal) {terminal : List Signal}
    (hPoint' : t'.point = .ended (.retired terminal)) : t.point = .retiring terminal [] := by
  have hMove := (Task.spec_of_act hAct).2
  cases hMove with
  | loop hFrom hTo hSent => simp [Task.live, hPoint'] at hTo
  | speak signal hPoint hTo =>
    rw [hTo, show (t.emit .collect signal).point = t.point from rfl, hPoint] at hPoint'
    cases hPoint'
  | retire terminal' hPoint hStop hTo | terminal terminal' signal rest hPoint hTo =>
    rw [hTo] at hPoint'
    cases hPoint'
  | retired terminal' hPoint hTo =>
    rw [hTo] at hPoint'
    cases hPoint'
    exact hPoint
  | fail hFrom hTo hSent => simp [Task.failed, hPoint'] at hTo

theorem Retiring.moved {now : Nat} {room : Bool} {t t' : Task} {e : TaskEvent}
    {fatal : Option FatalSignal} (h : Retiring t) (hAct : Task.Act now room t e t' fatal)
    (hStop : ∀ terminal, e = .stopSeen terminal → Retires t.desc terminal) : Retiring t' := by
  obtain ⟨hSame, hMove⟩ := Task.spec_of_act hAct
  obtain ⟨before, after, hBlocks⟩ := h.blocks
  refine ⟨fun terminal rest hPoint => ?_, fun terminal hPoint => ?_, hBlocks.move hMove⟩
  · rw [hSame.desc]
    obtain ⟨hEvent, -⟩ | ⟨rest', hOld⟩ := Task.retiring_of_act hAct hPoint
    · exact hStop terminal hEvent
    · exact h.under terminal rest' hOld
  · rw [hSame.desc]
    exact h.under terminal [] (retired_of_act hAct hPoint)

theorem retiring_of_act {p p' : Process} {e : ProcessEvent} (hAct : Process.Act p e p')
    (h : ∀ (i : Nat) (t : Task), p.supervisor.tasks[i]? = some t → Retiring t)
    (hStop : ∀ i t terminal, e = .task i (.stopSeen terminal) → p.supervisor.tasks[i]? = some t →
      Retires t.desc terminal) :
    ∀ (i : Nat) (t : Task), p'.supervisor.tasks[i]? = some t → Retiring t := by
  apply Process.tasks_of_act (Q := fun _ _ t => Retiring t) hAct h
  · intro i t t' hTask hTask' hEffect hOld
    obtain ⟨before, after, hBlocks⟩ := hOld.blocks
    cases hEffect with
    | same => exact hOld
    | removed name hEvent hName | dropped result hStage =>
      exact ⟨hOld.under, hOld.ended, before, after, hBlocks.sent, hBlocks.collects, hBlocks.retires,
        hBlocks.live, hBlocks.retiring, hBlocks.retired⟩
    | aborted hUnfinished hWhy =>
      refine ⟨fun terminal rest hPoint => ?_, fun terminal hPoint => ?_, before, after,
        hBlocks.of_failed rfl rfl⟩
      · cases hPoint
      · cases hPoint
    | moved e' _ fatal hEvent hTaskAct hSent =>
      apply hOld.moved hTaskAct
      rintro terminal rfl
      exact hStop i t terminal hEvent hTask
  · intro desc origin hRegistered
    refine ⟨fun terminal rest hPoint => ?_, fun terminal hPoint => ?_, [], [],
      Task.sentBlocks_spawn desc origin _⟩
    · cases hPoint
    · cases hPoint

theorem retiring_of_run {criticalThreshold : UInt32} {boot : List SourceDescriptor} {capacity : Nat}
    {events : List WatcherEvent}
    (hRun : Run step ofSources (new criticalThreshold boot capacity batchSize) events w) :
    ∀ (i : Nat) (t : Task), w.process.supervisor.tasks[i]? = some t → Retiring t := by
  apply hRun.invariant (I := fun w =>
    ∀ (i : Nat) (t : Task), w.process.supervisor.tasks[i]? = some t → Retiring t)
  · intro i t hTask
    simp [new, Process.new, Supervisor.new] at hTask
  · intro a e b h hOk hStep
    obtain ⟨e', p, rfl, hAct, rfl⟩ | ⟨e', p, rfl, hDrain, rfl⟩ := step_cases hStep
    · apply retiring_of_act hAct h
      rintro i t terminal rfl hTask
      exact hOk t hTask
    · exact h

/-- A retirement says zero, and says it with gauges. -/
theorem zero_of_retire {s : SignalSource} {signal : Signal} (h : signal ∈ s.retire) :
    ∃ m, signal = .metric m ∧ m.kind = .gauge ∧ m.value = 0 := by
  cases s with
  | session c | learning c =>
    obtain ⟨name, -, rfl⟩ := List.mem_map.mp h
    exact ⟨_, rfl, rfl, rfl⟩
  | _ => cases h

/-- Where a name is that of one task only, its emissions are those of the task. -/
theorem Coupled.emissionsOf_eq_filter (h : Coupled batchSize w) {i : Nat} {t : Task}
    (hTask : w.process.supervisor.tasks[i]? = some t)
    (hAlone : ∀ j u, w.process.supervisor.tasks[j]? = some u → u.desc.name = t.desc.name → j = i) :
    w.emissionsOf i = w.pipeline.emissions.filter fun x => x.source.name = t.desc.name := by
  have hEmissions : w.pipeline.emissions = (w.pipeline.emissions.zip w.writers).map Prod.fst :=
    (List.map_fst_zip h.writers.ge).symm
  have hOf (j : Nat) (x : Emission) (hx : (x, j) ∈ w.pipeline.emissions.zip w.writers) :
      x ∈ w.emissionsOf j :=
    List.mem_map.mpr ⟨(x, j), List.mem_filter.mpr ⟨hx, decide_eq_true rfl⟩, rfl⟩
  rw [hEmissions, List.filter_map, emissionsOf]
  refine congrArg (List.map Prod.fst) (List.filter_congr fun y hy => ?_)
  obtain ⟨x, j⟩ := y
  rw [Function.comp_apply, decide_eq_decide]
  have hLt := h.known j (List.of_mem_zip hy).2
  have hSource := (h.told j _ (List.getElem?_eq_getElem hLt)).source x (hOf j x hy)
  constructor
  · rintro rfl
    obtain rfl := Option.some.inj ((List.getElem?_eq_getElem hLt).symm.trans hTask)
    rw [hSource]
  · intro hName
    rw [hSource] at hName
    exact hAlone j _ (List.getElem?_eq_getElem hLt) hName

theorem exported_of_all (hAll : w.pipeline.batches.flatten = w.pipeline.accepted) :
    w.exported = w.pipeline.emissions.filter Emission.accepted := by
  have hLength := congrArg List.length hAll
  rw [Pipeline.accepted, List.length_map] at hLength
  rw [exported, hLength, List.take_length]

/-- Whatever was written before, a retirement leaves zero. -/
theorem last_of_retirement {s : SignalSource} {terminal : List Signal} (hRetire : s.retire = terminal)
    {m : Metric} (hm : m.intoSignal ∈ terminal) (layer : Layer) (values : List F64) :
    Aggregation.lastValue.result
      (values ++ written (m.stamp layer) (terminal.map (stampLayer layer))) = some 0 := by
  have hZero : ∀ v ∈ written (m.stamp layer) (terminal.map (stampLayer layer)), v = 0 := by
    intro v hv
    obtain ⟨stamped, hStamped, hWrites⟩ := List.mem_filterMap.mp hv
    obtain ⟨signal, hTerminal, rfl⟩ := List.mem_map.mp hStamped
    obtain ⟨n, rfl, -, hValue⟩ := zero_of_retire (hRetire ▸ hTerminal)
    simp only [stampLayer, Signal.modifyAttributes, Option.ite_none_right_eq_some,
      Option.some.injEq] at hWrites
    rw [← hWrites.2, hValue]
  have hOwn : (0 : F64) ∈ written (m.stamp layer) (terminal.map (stampLayer layer)) := by
    obtain ⟨n, hn, -, hValue⟩ := zero_of_retire (hRetire ▸ hm)
    obtain rfl := Signal.metric.inj hn
    refine List.mem_filterMap.mpr ⟨_, List.mem_map_of_mem hm, ?_⟩
    rw [stampLayer_intoSignal]
    simp [Metric.intoSignal, Metric.stamp, hValue]
  rw [Aggregation.lastValue_result, List.getLast?_append_of_ne_nil _ (List.ne_nil_of_mem hOwn),
    List.getLast?_eq_some_getLast (List.ne_nil_of_mem hOwn), hZero _ (List.getLast_mem _)]

/-- A source that has retired, under a name that no other task had, reads zero in the end, if the
channel had room for its terminal signals. -/
theorem a_retired_source_reads_zero {σ : Type*} (sdk : Sdk σ) (hSdk : sdk.Documented)
    (clients : Clients) (criticalThreshold : UInt32) (boot : List SourceDescriptor)
    (capacity batchSize : Nat) (events : List WatcherEvent) (w : Watcher)
    (hRun : Run step ofSources (new criticalThreshold boot capacity batchSize) events w)
    (hEnded : w.pipeline.drain = .ended) (i : Nat) (t : Task) (terminal : List Signal)
    (hTask : w.process.supervisor.tasks[i]? = some t) (hPoint : t.point = .ended (.retired terminal))
    (hAlone : ∀ j u, w.process.supervisor.tasks[j]? = some u → u.desc.name = t.desc.name → j = i)
    (hRoom : ∀ x ∈ (w.emissionsOf i).rtake terminal.length, x.accepted)
    (m : Metric) (hm : m.intoSignal ∈ terminal) :
    ((OtlpExporter.new sdk).exportAll sdk clients w.pipeline.batches).held sdk
      (m.stamp t.desc.layer) = some 0 := by
  obtain ⟨hCoupled, hSourced⟩ := sourced_of_run hRun
  have hRetiring := retiring_of_run hRun i t hTask
  obtain ⟨s, -, -, hRetire⟩ := hRetiring.ended terminal hPoint
  obtain ⟨before, after, hBlocks⟩ := hRetiring.blocks
  have hSent : (w.emissionsOf i).map Emission.stamped =
      before.map Prod.snd ++ terminal.map (stampLayer t.desc.layer) := by
    rw [(hCoupled.told i t hTask).sent, hBlocks.sent, hBlocks.retired terminal hPoint, List.map_append,
      Task.terminalBlock, List.map_map]
    rfl
  obtain ⟨front, last, hSplit, -, hLast⟩ := List.map_eq_append_iff.mp hSent
  -- the metric stands among the last emissions, and all of these were accepted
  have hStamped : (m.stamp t.desc.layer).intoSignal ∈ last.map Emission.stamped := by
    rw [hLast]
    exact List.mem_map_of_mem (f := stampLayer t.desc.layer) hm
  obtain ⟨x, hx, hxStamped⟩ := List.mem_map.mp hStamped
  have hOf : x ∈ w.emissionsOf i := by
    rw [hSplit]
    exact List.mem_append_right _ hx
  have hAccepted : last.filter Emission.accepted = last := by
    have hLength : terminal.length = last.length := by simpa using (congrArg List.length hLast).symm
    have hEnd : (w.emissionsOf i).rtake terminal.length = last := by
      rw [hSplit, hLength, List.rtake, List.length_append, Nat.add_sub_cancel, List.drop_left]
    exact List.filter_eq_self.mpr (hEnd ▸ hRoom)
  have hFilter := hCoupled.emissionsOf_eq_filter hTask hAlone
  have hSource := (hCoupled.told i t hTask).source x hOf
  have hMem : x ∈ w.pipeline.emissions := by
    rw [hFilter] at hOf
    exact (List.mem_filter.mp hOf).1
  obtain ⟨n, hn, hKind, -⟩ := zero_of_retire (hRetire ▸ hm)
  obtain rfl := Signal.metric.inj hn
  have hAgg : Aggregation.ofKind (m.stamp t.desc.layer).kind = some .lastValue := by
    rw [show (m.stamp t.desc.layer).kind = m.kind from rfl, hKind]
    rfl
  rw [held_of_name hSdk clients hCoupled hSourced hMem hxStamped hAgg, exported_of_all (hCoupled.all_exported hEnded),
    hSource, List.filter_comm, ← hFilter, hSplit, List.filter_append, hAccepted, List.map_append,
    written_append, hLast]
  exact last_of_retirement hRetire hm _ _

section Sample

open ContainerCollector (sampleSdk sampleSdk_documented sampleClients)

/-- All tasks run this source, which says what it says on this disk and at its retirement. -/
def scripted (s : SignalSource) (world : World) (w : Watcher) : WatcherEvent → Bool
  | .process (.task i (.emitted signal)) =>
    (w.process.supervisor.tasks[i]?).all (fun t => t.desc = s.descriptor) &&
      decide (signal ∈ (s.collect world).2.1 ∨ signal ∈ s.retire)
  | .process (.task i (.stopSeen terminal)) =>
    (w.process.supervisor.tasks[i]?).all (fun t => t.desc = s.descriptor) &&
      decide (s.retire = terminal)
  | _ => true

theorem ofSources_of_scripted {s : SignalSource} (hMade : s.Made) {world : World} (w : Watcher)
    (e : WatcherEvent) (h : scripted s world w e) : ofSources w e := by
  unfold ofSources
  split
  · intro t hTask
    simp only [scripted, hTask, Option.all_some, Bool.and_eq_true, decide_eq_true_eq] at h
    exact ⟨s, hMade, h.1.symm, h.2.imp_left fun hCollected => ⟨world, hCollected⟩⟩
  · intro t hTask
    simp only [scripted, hTask, Option.all_some, Bool.and_eq_true, decide_eq_true_eq] at h
    exact ⟨s, hMade, h.1.symm, h.2⟩
  · trivial

def retiringSession : List WatcherEvent :=
  [.process (.command (.add sampleSession.descriptor)), .process (.polled 0),
    .process (.task 0 (.probed .ready)), .process (.command (.remove sampleSession.descriptor.name)),
    .process (.task 0 (.stopSeen sampleSession.retire))] ++
  (sampleSession.retire.map fun signal => .process (.task 0 (.emitted signal))) ++
  [.process (.task 0 .retired), .process (.yielded 0), .process .joined, .process .ctrlC,
    .process .drained, .drain .received, .drain .received, .drain .received, .drain .receivedNone,
    .drain (.exported (.ok ()))]

theorem run_retiringSession : Run step ofSources (new 3 [] 8 512) retiringSession
    (after step (new 3 [] 8 512) retiringSession) := by
  have hScripted : Run step (fun w e => scripted sampleSession idleWorld w e) (new 3 [] 8 512)
      retiringSession (after step (new 3 [] 8 512) retiringSession) := run_after_guarded rfl
  exact hScripted.mono (ofSources_of_scripted (.session _ _ _))

def zeroSessions : Metric := sampleCollector.tag (.now "harnesssphere.harness.sessions" .gauge 0)

theorem a_retirement_is_held :
    ((OtlpExporter.new sampleSdk).exportAll sampleSdk sampleClients
      (after step (new 3 [] 8 512) retiringSession).pipeline.batches).held sampleSdk
        (zeroSessions.stamp .harness) =
      Aggregation.lastValue.result (written (zeroSessions.stamp .harness)
        (((after step (new 3 [] 8 512) retiringSession).exported.filter fun y =>
          y.source.name = sampleSession.descriptor.name).map Emission.stamped)) :=
  a_name_owns_its_streams sampleSdk sampleSdk_documented sampleClients 3 [] 8 512 retiringSession _
    run_retiringSession ⟨sampleSession.descriptor, zeroSessions.intoSignal, true⟩ List.mem_cons_self
    (zeroSessions.stamp .harness) rfl .lastValue rfl

theorem a_lone_session_reads_zero :
    ((OtlpExporter.new sampleSdk).exportAll sampleSdk sampleClients
      (after step (new 3 [] 8 512) retiringSession).pipeline.batches).held sampleSdk
        (zeroSessions.stamp .harness) = some 0 := by
  have hLength : (after step (new 3 [] 8 512) retiringSession).process.supervisor.tasks.length = 1 := rfl
  refine a_retired_source_reads_zero sampleSdk sampleSdk_documented sampleClients 3 [] 8 512
    retiringSession _ run_retiringSession rfl 0 _ sampleSession.retire rfl rfl ?_ ?_ zeroSessions
    List.mem_cons_self
  · intro j u hTask hName
    have hLt := (List.getElem?_eq_some_iff.mp hTask).1
    omega
  · decide

end Sample

end Watcher

end HarnessSphere
