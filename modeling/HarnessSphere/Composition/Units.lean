import HarnessSphere.Composition.Backend

/-! # The units of the instruments

An instrument is made when its name first comes to the exporter, and keeps the unit that came with it.
Of one name there is one unit, but for the size of the memory.
-/

namespace HarnessSphere

open Machine

namespace OtlpExporter

/-- The first metric that comes under a name to the instruments of an aggregation. -/
def firstOf (agg : Aggregation) (name : String) (signals : List Signal) : Option Metric :=
  signals.findSome? fun
    | .metric m => if Aggregation.ofKind m.kind = some agg ∧ m.name = name then some m else none
    | _ => none

variable {σ : Type*} {sdk : Sdk σ}

theorem lookup_made_accept (e : OtlpExporter σ) (agg : Aggregation) (name : String) (signal : Signal) :
    ((e.accept sdk signal).made agg).lookup name =
      ((e.made agg).lookup name).or ((firstOf agg name [signal]).map fun m => ⟨name, m.unit⟩) := by
  cases signal with
  | metric m =>
    by_cases hAgg : Aggregation.ofKind m.kind = some agg
    · rw [accept, made_recordMetric e hAgg]
      obtain rfl | hOther := eq_or_ne name m.name
      · rw [AList.lookup_insert, instrument]
        cases (e.made agg).lookup m.name <;> simp [firstOf, hAgg]
      · rw [AList.lookup_insert_ne hOther]
        simp [firstOf, hOther.symm]
    · rw [accept, made_recordMetric_other e hAgg]
      simp [firstOf, hAgg]
  | histogram h | log l | span s => simp [accept, firstOf]

/-- An instrument is the one its name first came with. -/
theorem lookup_made_exportAll (clients : Clients) (batches : List (List Signal)) (agg : Aggregation)
    (name : String) :
    (((new sdk).exportAll sdk clients batches).made agg).lookup name =
      (firstOf agg name batches.flatten).map fun m => ⟨name, m.unit⟩ := by
  rw [exportAll_eq]
  generalize batches.flatten = signals
  induction signals using List.reverseRecOn with
  | nil => cases agg <;> rfl
  | append_singleton front signal ih =>
    rw [List.foldl_append, List.foldl_cons, List.foldl_nil, lookup_made_accept, ih, firstOf, firstOf,
      firstOf, List.findSome?_append]
    cases List.findSome? _ front <;> rfl

end OtlpExporter

def memoryBytes : String := "harnesssphere.harness.memory.bytes"

theorem Entry.unit_of_name : ∀ e ∈ catalogue.flatten, ∀ e' ∈ catalogue.flatten, e.name = e'.name →
    e.name ≠ memoryBytes → e.unit = e'.unit := by
  decide +kernel

theorem Entry.unit_stamped (e : Entry) : e.stamped.unit = e.unit := by
  unfold stamped
  split_ifs <;> rfl

theorem Known.unit {m m' : Metric} (h : Known m) (h' : Known m') (hName : m.name = m'.name)
    (hOther : m.name ≠ memoryBytes) : m.unit = m'.unit := by
  obtain ⟨⟨e, he, hEntry⟩, -⟩ := h
  obtain ⟨⟨e', he', hEntry'⟩, -⟩ := h'
  have hOf {m : Metric} {e : Entry} (hEntry : m.entry = e.stamped) : m.name = e.name ∧ m.unit = e.unit :=
    ⟨(congrArg Entry.name hEntry).trans e.name_stamped,
      (congrArg Entry.unit hEntry).trans e.unit_stamped⟩
  rw [(hOf hEntry).2, (hOf hEntry').2]
  apply Entry.unit_of_name e he e' he'
  · rw [← (hOf hEntry).1, ← (hOf hEntry').1, hName]
  · rw [← (hOf hEntry).1]
    exact hOther

theorem Entry.ofKind_isSome : ∀ e ∈ catalogue.flatten, (Aggregation.ofKind e.kind).isSome := by
  decide +kernel

theorem Known.aggregation {m : Metric} (h : Known m) : ∃ agg, Aggregation.ofKind m.kind = some agg := by
  obtain ⟨⟨e, he, hEntry⟩, -⟩ := h
  have hKind : m.kind = e.kind := (congrArg Entry.kind hEntry).trans e.kind_stamped
  rw [hKind]
  exact Option.isSome_iff_exists.mp (Entry.ofKind_isSome e he)

namespace Watcher

variable {batchSize : Nat} {w : Watcher}

theorem exported_known (hSourced : ∀ x ∈ w.pipeline.emissions, Sourced x) {x : Emission}
    (hx : x ∈ w.exported) {m : Metric} (hm : x.stamped = .metric m) : Known m := by
  obtain ⟨s, n, -, -, -, hStamped, hKnown⟩ :=
    (hSourced x (List.mem_filter.mp (List.mem_of_mem_take hx)).1).metric
  obtain rfl := Signal.metric.inj (hm.symm.trans hStamped)
  exact hKnown

/-- The first metric of a name is one of those exported. -/
theorem exists_first (hCoupled : Coupled batchSize w) {x : Emission} (hx : x ∈ w.exported) {m : Metric}
    (hm : x.stamped = .metric m) {agg : Aggregation} (hAgg : Aggregation.ofKind m.kind = some agg) :
    ∃ y ∈ w.exported, ∃ n, y.stamped = .metric n ∧ n.name = m.name ∧
      OtlpExporter.firstOf agg m.name w.pipeline.batches.flatten = some n := by
  have hSome : (OtlpExporter.firstOf agg m.name w.pipeline.batches.flatten).isSome := by
    rw [← hCoupled.exported_eq, OtlpExporter.firstOf, List.isSome_findSome?, List.any_eq_true]
    exact ⟨x.stamped, List.mem_map_of_mem hx, by simp [hm, hAgg]⟩
  obtain ⟨n, hn⟩ := Option.isSome_iff_exists.mp hSome
  obtain ⟨signal, hSignal, hTaken⟩ := List.exists_of_findSome?_eq_some hn
  rw [← hCoupled.exported_eq] at hSignal
  obtain ⟨y, hy, rfl⟩ := List.mem_map.mp hSignal
  split at hTaken
  · rename_i n' hStamped
    rw [Option.ite_none_right_eq_some, Option.some.injEq] at hTaken
    obtain ⟨⟨-, hName⟩, rfl⟩ := hTaken
    exact ⟨y, hy, n', hStamped, hName, hn⟩
  · cases hTaken

/-- Every metric is recorded in an instrument of its own unit, exactly where the size of the memory
comes with one unit only: a retirement says it without. -/
theorem units_agree_iff {σ : Type*} (sdk : Sdk σ) (clients : Clients) (criticalThreshold : UInt32)
    (boot : List SourceDescriptor) (capacity batchSize : Nat) (events : List WatcherEvent) (w : Watcher)
    (hRun : Run step ofSources (new criticalThreshold boot capacity batchSize) events w) :
    (∀ x ∈ w.exported, ∀ m, x.stamped = .metric m → ∀ agg, Aggregation.ofKind m.kind = some agg →
      (((OtlpExporter.new sdk).exportAll sdk clients w.pipeline.batches).made agg).lookup m.name =
        some ⟨m.name, m.unit⟩) ↔
    ∀ x ∈ w.exported, ∀ y ∈ w.exported, ∀ m n, x.stamped = .metric m → y.stamped = .metric n →
      m.name = memoryBytes → n.name = memoryBytes → m.unit = n.unit := by
  obtain ⟨hCoupled, hSourced⟩ := sourced_of_run hRun
  constructor
  · intro hUnits x hx y hy m n hm hn hName hName'
    have hKnown := exported_known hSourced hx hm
    have hKnown' := exported_known hSourced hy hn
    obtain ⟨agg, hAgg⟩ := hKnown.aggregation
    have hSame := hName.trans hName'.symm
    have hUnit := hUnits x hx m hm agg hAgg
    rw [hSame, hUnits y hy n hn agg ((hKnown.agree hKnown' hSame).1 ▸ hAgg)] at hUnit
    exact (Instrument.mk.inj (Option.some.inj hUnit)).2.symm
  · intro hMemory x hx m hm agg hAgg
    obtain ⟨y, hy, n, hn, hName, hFirst⟩ := exists_first hCoupled hx hm hAgg
    rw [OtlpExporter.lookup_made_exportAll, hFirst, Option.map_some]
    have hUnit : n.unit = m.unit := by
      by_cases hOther : n.name = memoryBytes
      · exact hMemory y hy x hx n m hn hm hOther (hName.symm.trans hOther)
      · exact (exported_known hSourced hy hn).unit (exported_known hSourced hx hm) hName hOther
    rw [hUnit]

section Sample

open ContainerCollector (sampleSdk sampleClients)

/-- A learning collector collects once and is retired. -/
def retiringLearning : List WatcherEvent :=
  [.process (.command (.add sampleLearning.descriptor)), .process (.polled 0),
    .process (.task 0 (.probed .ready)), .process (.task 0 .ticked)] ++
  said (sampleLearning.collect idleWorld).2.1 ++
  [.process (.task 0 (.collected .ok)), .process (.command (.remove sampleLearning.descriptor.name)),
    .process (.task 0 (.stopSeen sampleLearning.retire))] ++
  said sampleLearning.retire ++
  [.process (.task 0 .retired), .process (.yielded 0), .process .joined, .process .ctrlC,
    .process .drained] ++
  List.replicate 12 (.drain .received) ++ [.drain .receivedNone, .drain (.exported (.ok ()))]
where
  said (signals : List Signal) : List WatcherEvent :=
    signals.map fun signal => .process (.task 0 (.emitted signal))

def afterLearning : Watcher := after step (new 3 [] 16 512) retiringLearning

theorem run_retiringLearning : Run step ofSources (new 3 [] 16 512) retiringLearning afterLearning := by
  have hScripted : Run step (fun w e => scripted sampleLearning idleWorld w e) (new 3 [] 16 512)
      retiringLearning afterLearning := run_after_guarded rfl
  exact hScripted.mono (ofSources_of_scripted (.learning _ _ _))

theorem a_retired_learning_collector_mixes_units :
    ¬ ∀ x ∈ afterLearning.exported, ∀ m, x.stamped = .metric m → ∀ agg,
      Aggregation.ofKind m.kind = some agg →
        (((OtlpExporter.new sampleSdk).exportAll sampleSdk sampleClients
          afterLearning.pipeline.batches).made agg).lookup m.name = some ⟨m.name, m.unit⟩ := by
  rw [units_agree_iff sampleSdk sampleClients 3 [] 16 512 retiringLearning afterLearning
    run_retiringLearning]
  intro hAgree
  have hUnit := hAgree _ (List.mem_of_getElem? (i := 5) rfl) _ (List.mem_of_getElem? (i := 8) rfl) _ _
    rfl rfl rfl rfl
  cases hUnit

end Sample

end Watcher

end HarnessSphere
