import HarnessSphere.Collectors.Growth
import HarnessSphere.Composition.Calls
import HarnessSphere.Runtime.Latency

/-! # What the backend shows

Each task runs a source of the program, the channel may drop, the drain cuts into batches as it likes.
Still the backend shows of a source what its last collection found, and over transcripts that only grow
no gauge of a session ever falls there.
-/

namespace HarnessSphere

open Machine

/-- The step of task `i` itself. -/
def WatcherEvent.own (i : Nat) : WatcherEvent → Option TaskEvent
  | .process (.task j e) => if j = i then some e else none
  | _ => none

namespace Watcher

variable {batchSize : Nat} {v w w' : Watcher} {events : List WatcherEvent}

/-- Each task has called a source of the program, and no call has panicked. -/
def Played (events : List WatcherEvent) (w : Watcher) : Prop :=
  ∀ (i : Nat) (t : Task), w.process.supervisor.tasks[i]? = some t → ∃ s : SignalSource, s.Made ∧
    s.descriptor = t.desc ∧ ∃ worlds stand, s.Plays worlds (events.filterMap (WatcherEvent.own i)) stand

/-- A task stays, and so does its descriptor. -/
theorem task_of_step {e : WatcherEvent} (hStep : w.step e = some w') {i : Nat} {t : Task}
    (hTask : w.process.supervisor.tasks[i]? = some t) :
    ∃ t', w'.process.supervisor.tasks[i]? = some t' ∧ t'.desc = t.desc := by
  obtain ⟨e', p, rfl, hAct, rfl⟩ | ⟨e', p, rfl, -, rfl⟩ := step_cases hStep
  · obtain ⟨t', hTask', hEffect⟩ := Process.effect_of_task hAct hTask
    exact ⟨t', hTask', hEffect.desc⟩
  · exact ⟨t, hTask, rfl⟩

theorem ofSources_iff (w : Watcher) (e : WatcherEvent) :
    ofSources w e ↔ ∀ i own t, e.own i = some own → w.process.supervisor.tasks[i]? = some t →
      SignalSource.Voiced t.desc own := by
  cases e with
  | drain e => exact iff_of_true trivial fun i own t hOwn => by cases hOwn
  | process e =>
    cases e with
    | task j e =>
      have hOwn (own : TaskEvent) (i : Nat) :
          (WatcherEvent.process (.task j e)).own i = some own ↔ j = i ∧ e = own := by
        simp [WatcherEvent.own]
      simp only [hOwn, and_imp]
      constructor
      · rintro h i own t rfl rfl hTask
        cases e with
        | emitted signal | stopSeen terminal => exact h t hTask
        | _ => trivial
      · intro h
        cases e with
        | emitted signal | stopSeen terminal => exact fun t hTask => h j _ t rfl rfl hTask
        | _ => trivial
    | _ => exact iff_of_true trivial fun i own t hOwn => by cases hOwn

/-- A run in which the tasks call their sources is one in which they say what these say. -/
theorem run_ofSources (hRun : Run step Any v events w) (hPlayed : Played events w) :
    Run step ofSources v events w := by
  have hVoiced : ∀ e ∈ events, ∀ i own t, e.own i = some own →
      w.process.supervisor.tasks[i]? = some t → SignalSource.Voiced t.desc own := by
    intro e he i own t hOwn hTask
    obtain ⟨s, hMade, hDesc, worlds, stand, hPlays⟩ := hPlayed i t hTask
    rw [← hDesc]
    exact hPlays.voiced hMade (List.mem_filterMap.mpr ⟨e, he, hOwn⟩)
  clear hPlayed
  induction hRun with
  | nil => exact .nil
  | @snoc b c events e _ _ hStep ih =>
    have hBefore : ∀ e' ∈ events ++ [e], ∀ i own t, e'.own i = some own →
        b.process.supervisor.tasks[i]? = some t → SignalSource.Voiced t.desc own := by
      intro e' he i own t hOwn hTask
      obtain ⟨t', hTask', hDesc⟩ := task_of_step hStep hTask
      exact hDesc ▸ hVoiced e' he i own t' hOwn hTask'
    refine (ih fun e' he => hBefore e' (List.mem_append_left _ he)).snoc ?_ hStep
    exact (ofSources_iff b e).mpr (hBefore e (List.mem_append_right _ List.mem_cons_self))

/-- The emissions of a task are what it said. -/
theorem emissionsOf_eq {criticalThreshold : UInt32} {boot : List SourceDescriptor} {capacity : Nat}
    (hRun : Run step Any (new criticalThreshold boot capacity batchSize) events w) (i : Nat) :
    (w.emissionsOf i).map Emission.signal =
      (events.filterMap (WatcherEvent.own i)).filterMap TaskEvent.said := by
  refine (hRun.history (I := fun events w => Coupled batchSize w ∧
    (w.emissionsOf i).map Emission.signal =
      (events.filterMap (WatcherEvent.own i)).filterMap TaskEvent.said)
    ⟨coupled_new criticalThreshold boot capacity batchSize, rfl⟩ ?_).2
  rintro events w e w' ⟨hCoupled, hSaid⟩ - hStep
  refine ⟨coupled_of_step hCoupled hStep, ?_⟩
  rw [List.filterMap_append, List.filterMap_append, ← hSaid]
  obtain ⟨e', p, rfl, hAct, rfl⟩ | ⟨e', p, rfl, hDrain, rfl⟩ := step_cases hStep
  · change ((w.hear e').emissionsOf i).map Emission.signal = _
    obtain ⟨j, signal, t, rfl, hTask, -, hHear⟩ | ⟨hSilent, hHear⟩ := hCoupled.hear hAct
    · obtain ⟨accepted, hOf⟩ := hCoupled.emissionsOf_emit t.desc signal j i
      rw [hHear, hOf]
      by_cases hji : j = i
      · simp [hji, WatcherEvent.own, TaskEvent.said]
      · simp [hji, WatcherEvent.own]
    · have hNone (own : TaskEvent) (hOwn : (WatcherEvent.process e').own i = some own) :
          own.said = none := by
        cases e' with
        | task j e =>
          simp only [WatcherEvent.own, Option.ite_none_right_eq_some, Option.some.injEq] at hOwn
          obtain ⟨-, rfl⟩ := hOwn
          cases e with
          | emitted signal => exact absurd rfl (hSilent j signal)
          | _ => rfl
        | _ => cases hOwn
      rw [hHear]
      cases hOwn : (WatcherEvent.process e').own i with
      | none => simp [hOwn]
      | some own => simp [hOwn, hNone own hOwn]
  · have hEmissions := (frame_of_drain hDrain).2.2
    simp [emissionsOf, hEmissions, WatcherEvent.own]

section Growth

/-- What was said and what was exported stays so. -/
theorem grows_of_step {e : WatcherEvent} (hCoupled : Coupled batchSize w)
    (hStep : w.step e = some w') : w.pipeline.emissions <+: w'.pipeline.emissions ∧
      w.pipeline.batches <+: w'.pipeline.batches := by
  obtain ⟨e', p, rfl, hAct, rfl⟩ | ⟨e', p, rfl, hDrain, rfl⟩ := step_cases hStep
  · change w.pipeline.emissions <+: (w.hear e').pipeline.emissions ∧
      w.pipeline.batches <+: (w.hear e').pipeline.batches
    obtain ⟨j, signal, t, -, -, -, hHear⟩ | ⟨-, hHear⟩ := hCoupled.hear hAct
    · obtain ⟨accepted, hEmissions⟩ := emissions_emit w.pipeline t.desc signal
      obtain ⟨-, -, -, -, hBatches⟩ := w.pipeline.frame_of_emit t.desc signal
      rw [hHear]
      dsimp only
      rw [hEmissions, hBatches]
      exact ⟨List.prefix_append _ _, List.prefix_refl _⟩
    · rw [hHear]
      exact ⟨List.prefix_refl _, List.prefix_refl _⟩
  · exact ⟨by rw [(frame_of_drain hDrain).2.2], (Pipeline.advances_of_step hDrain).batches⟩

theorem grows_of_run (hCoupled : Coupled batchSize v) (hRun : Run step Any v events w) :
    v.pipeline.emissions <+: w.pipeline.emissions ∧ v.pipeline.batches <+: w.pipeline.batches :=
  (hRun.invariant (I := fun w => Coupled batchSize w ∧
      v.pipeline.emissions <+: w.pipeline.emissions ∧ v.pipeline.batches <+: w.pipeline.batches)
    ⟨hCoupled, List.prefix_refl _, List.prefix_refl _⟩
    fun _ _ _ h _ hStep => ⟨coupled_of_step h.1 hStep,
      h.2.1.trans (grows_of_step h.1 hStep).1, h.2.2.trans (grows_of_step h.1 hStep).2⟩).2

theorem exported_grows (hCoupled : Coupled batchSize v) (hRun : Run step Any v events w) :
    v.exported <+: w.exported := by
  obtain ⟨⟨said, hSaid⟩, ⟨batches, hBatches⟩⟩ := grows_of_run hCoupled hRun
  have hLength : v.pipeline.batches.flatten.length ≤
      (v.pipeline.emissions.filter Emission.accepted).length := by
    have hSignals := congrArg List.length hCoupled.conserved.signals
    simp only [Pipeline.accepted, List.length_map, List.length_append] at hSignals
    omega
  rw [exported, exported, ← hSaid, ← hBatches, List.filter_append, List.flatten_append,
    List.length_append, ← List.take_append_of_le_length hLength]
  exact List.take_prefix_take_left (Nat.le_add_right _ _)

end Growth

section Lone

variable {criticalThreshold : UInt32} {boot : List SourceDescriptor} {capacity i : Nat} {t : Task}

/-- No other task has the name of this one. -/
def Alone (w : Watcher) (i : Nat) (t : Task) : Prop :=
  w.process.supervisor.tasks[i]? = some t ∧
    ∀ (j : Nat) (u : Task), w.process.supervisor.tasks[j]? = some u → u.desc.name = t.desc.name → j = i

/-- What is exported under the name of a task. -/
def exportedOf (w : Watcher) (t : Task) : List Emission :=
  w.exported.filter fun x => x.source.name = t.desc.name

theorem Alone.exportedOf_prefix (h : w.Alone i t) (hCoupled : Coupled batchSize w) :
    w.exportedOf t <+: (w.emissionsOf i).filter Emission.accepted := by
  rw [hCoupled.emissionsOf_eq_filter h.1 h.2, List.filter_comm, exportedOf, exported]
  exact (List.take_prefix _ _).filter _

/-- Once the drain has caught up, all that the channel took is exported. -/
theorem Alone.exportedOf_eq (h : w.Alone i t) (hCoupled : Coupled batchSize w)
    (hChannel : w.pipeline.channel = []) (hBuffer : w.pipeline.buffer = []) :
    w.exportedOf t = (w.emissionsOf i).filter Emission.accepted := by
  have hAll := hCoupled.conserved.signals
  rw [hBuffer, hChannel, List.append_nil, List.append_nil] at hAll
  rw [hCoupled.emissionsOf_eq_filter h.1 h.2, List.filter_comm, exportedOf,
    exported_of_all hAll.symm]

theorem Coupled.stamped_eq (hCoupled : Coupled batchSize w)
    (hTask : w.process.supervisor.tasks[i]? = some t) {xs : List Emission}
    (hSub : ∀ x ∈ xs, x ∈ w.emissionsOf i) :
    xs.map Emission.stamped = (xs.map Emission.signal).map (stampLayer t.desc.layer) := by
  rw [List.map_map]
  refine List.map_congr_left fun x hx => ?_
  rw [Emission.stamped, (hCoupled.told i t hTask).source x (hSub x hx)]
  rfl

end Lone

section Values

/-- Where a batch writes each series once, its value of a series is the one written. -/
theorem written_once {m : Metric} {signals : List Signal}
    (hOnce : (SignalSource.written signals).Nodup) (hm : m.intoSignal ∈ signals) :
    written m signals = [m.value] := by
  obtain ⟨before, after, rfl⟩ := List.append_of_mem hm
  rw [← List.singleton_append, SignalSource.written_append, SignalSource.written_append] at hOnce
  have hOther {xs : List Signal} (hNot : m.series ∉ SignalSource.written xs) : written m xs = [] := by
    refine List.filterMap_eq_nil_iff.mpr fun x hx => ?_
    cases x with
    | metric n =>
      dsimp only
      rw [if_neg]
      rintro ⟨-, hSeries⟩
      exact hNot (List.mem_map.mpr ⟨(n.series, n.value), List.mem_filterMap.mpr ⟨_, hx, rfl⟩, hSeries⟩)
    | _ => rfl
  obtain ⟨-, hRest, hBefore⟩ := List.nodup_append.mp hOnce
  have hOwn : m.series ∈ SignalSource.written [m.intoSignal] := List.mem_singleton_self _
  have hHere : written m [m.intoSignal] = [m.value] := by simp [written, Metric.intoSignal]
  have hNotBefore : m.series ∉ SignalSource.written before := fun hMem =>
    hBefore _ hMem _ (List.mem_append_left _ hOwn) rfl
  have hNotAfter : m.series ∉ SignalSource.written after := fun hMem =>
    (List.nodup_append.mp hRest).2.2 _ hOwn _ hMem rfl
  rw [← List.singleton_append, written_append, written_append, hOther hNotBefore, hOther hNotAfter,
    hHere]
  rfl

/-- Of two signals that write one series, the second writes no less. -/
def Rising (first second : Signal) : Prop :=
  ∀ m m' : Metric, first = m.intoSignal → second = m'.intoSignal → m.series = m'.series →
    m.value ≤ m'.value

theorem rising_flatten {emissions : List (List Signal)}
    (hGrow : emissions.Pairwise SessionCollector.NoLess)
    (hOnce : ∀ signals ∈ emissions, (SignalSource.written signals).Nodup) :
    emissions.flatten.Pairwise Rising := by
  refine List.pairwise_flatten.mpr ⟨fun signals hSignals => ?_, hGrow.imp_of_mem ?_⟩
  · have hApart := hOnce signals hSignals
    rw [SignalSource.written, gaugeWrites, List.map_filterMap] at hApart
    refine (List.pairwise_filterMap.mp hApart).imp fun h m m' hm hm' hSeries => ?_
    subst hm hm'
    exact absurd hSeries (h m.series rfl m'.series rfl)
  · intro earlier later hEarlier hLater hNoLess first hFirst second hSecond m m' hm hm' hSeries
    subst hm hm'
    obtain ⟨v, hLe, hWrite⟩ := hNoLess m.series m.value (List.mem_filterMap.mpr ⟨_, hFirst, rfl⟩)
    have hOwn : (m.series, m'.value) ∈ gaugeWrites later :=
      List.mem_filterMap.mpr ⟨_, hSecond, by rw [hSeries]; rfl⟩
    have hSame := List.inj_on_of_nodup_map (hOnce later hLater) hWrite hOwn rfl
    rwa [(Prod.mk.inj hSame).2] at hLe

theorem written_stamped (m : Metric) (layer : Layer) (ms : List Metric) :
    written m ((ms.map Metric.intoSignal).map (stampLayer layer)) =
      (ms.filter fun n => Aggregation.ofKind n.kind = Aggregation.ofKind m.kind ∧
        (n.stamp layer).series = m.series).map Metric.value := by
  induction ms with
  | nil => rfl
  | cons n ms ih =>
    have hHead : written m [(n.stamp layer).intoSignal] =
        if Aggregation.ofKind n.kind = Aggregation.ofKind m.kind ∧ (n.stamp layer).series = m.series then
          [n.value] else [] := by
      rw [written, Metric.intoSignal, List.filterMap_cons, List.filterMap_nil]
      dsimp only
      split_ifs <;> simp_all [Metric.stamp]
    rw [List.map_cons, List.map_cons, stampLayer_intoSignal, written_cons, ih, hHead, List.filter_cons]
    split_ifs <;> simp_all

/-- Behind a sink the values of a stream rise as those before it do. -/
theorem written_rising {ms : List Metric} {layer : Layer} (m : Metric)
    (hRising : (ms.map Metric.intoSignal).Pairwise Rising)
    (hPlain : ∀ n ∈ ms, layerAttr ∉ n.entry.keys) :
    (written m ((ms.map Metric.intoSignal).map (stampLayer layer))).Pairwise (· ≤ ·) := by
  rw [written_stamped, List.pairwise_map, List.pairwise_filter]
  refine (List.pairwise_map.mp hRising).imp_of_mem ?_
  intro n n' hn hn' h hOwn hOwn'
  obtain ⟨-, hSeries⟩ := of_decide_eq_true hOwn
  obtain ⟨-, hSeries'⟩ := of_decide_eq_true hOwn'
  apply h n n' rfl rfl
  exact series_of_stamp (hPlain n hn) (hPlain n' hn') (hSeries.trans hSeries'.symm)

theorem getLast?_rises {values more : List F64} (hRising : more.Pairwise (· ≤ ·))
    (hPrefix : values <+: more) {v : F64} (hv : values.getLast? = some v) :
    ∃ v', more.getLast? = some v' ∧ v ≤ v' := by
  obtain ⟨later, rfl⟩ := hPrefix
  obtain rfl | ⟨front, last, rfl⟩ := List.eq_nil_or_concat' later
  · exact ⟨v, by rwa [List.append_nil], le_refl v⟩
  · refine ⟨last, by rw [← List.append_assoc, List.getLast?_concat], ?_⟩
    exact (List.pairwise_append.mp hRising).2.2 v (List.mem_of_getLast? hv) last
      (List.mem_append_right _ (List.mem_singleton_self last))

end Values

section Backend

variable {σ : Type*} {sdk : Sdk σ} {clients : Clients} {criticalThreshold : UInt32}
  {boot : List SourceDescriptor} {capacity i : Nat} {t : Task}

theorem collections_session {fromStr : Json.FromStr} {worlds : List World} (c : SessionCollector)
    (hParser : ∀ world ∈ worlds, world.fromStr = fromStr) :
    (SignalSource.session c).collections worlds =
      emissions fromStr c (worlds.map World.fs) := by
  induction worlds generalizing c with
  | nil => rfl
  | cons world worlds ih =>
    rw [List.map_cons, emissions,
      ← ih _ fun later hLater => hParser later (List.mem_cons_of_mem world hLater),
      ← hParser world List.mem_cons_self]
    rfl

theorem once_of_collections {s : SignalSource} {worlds : List World}
    (hProbe : ∀ c, s = .endpointProbe c → c.targets.Nodup) {signals : List Signal}
    (hSignals : signals ∈ s.collections worlds) : (SignalSource.written signals).Nodup := by
  obtain ⟨before, world, rfl⟩ := SignalSource.exists_of_mem_collections hSignals
  exact (SignalSource.nodup_collect _ world).mpr fun c hc =>
    hProbe c (SignalSource.endpointProbe_after hc)

theorem Alone.mem_emissionsOf (h : w.Alone i t) (hCoupled : Coupled batchSize w) {x : Emission} :
    x ∈ w.emissionsOf i ↔ x ∈ w.pipeline.emissions ∧ x.source.name = t.desc.name := by
  rw [hCoupled.emissionsOf_eq_filter h.1 h.2, List.mem_filter, decide_eq_true_eq]

/-- What the backend shows of a gauge of a source is the last of its values that was exported. -/
theorem held_of_lastValue (hSdk : sdk.Documented)
    (hRun : Run step ofSources (new criticalThreshold boot capacity batchSize) events w)
    {x : Emission} (hx : x ∈ w.pipeline.emissions) (hSource : x.source = t.desc) {m : Metric}
    (hm : x.stamped = .metric m) (hAgg : Aggregation.ofKind m.kind = some .lastValue) :
    ((OtlpExporter.new sdk).exportAll sdk clients w.pipeline.batches).held sdk m =
      (written m ((w.exportedOf t).map Emission.stamped)).getLast? := by
  obtain ⟨hCoupled, hSourced⟩ := sourced_of_run hRun
  rw [held_of_name hSdk clients hCoupled hSourced hx hm hAgg, Aggregation.lastValue_result, hSource,
    exportedOf]

theorem exportedOf_grows (hCoupled : Coupled batchSize v) (hRun : Run step Any v events w) (t : Task) :
    v.exportedOf t <+: w.exportedOf t := (exported_grows hCoupled hRun).filter _

/-- What a task that has not begun to retire has said is the beginning of what its collections say. -/
theorem said_prefix {s : SignalSource} {worlds : List World} {stand : Stand}
    (hRun : Run step Any (new criticalThreshold boot capacity batchSize) events w)
    (hPlays : s.Plays worlds (events.filterMap (WatcherEvent.own i)) stand)
    (hStays : stand.retires = false) :
    (w.emissionsOf i).map Emission.signal <+: (s.collections worlds).flatten := by
  refine ⟨stand.rest, ?_⟩
  rw [emissionsOf_eq hRun, hPlays.said_eq, hStays]
  simp

/-- All that a session collects are gauges of its own, without a layer. -/
theorem metrics_of_session (c : SessionCollector) (worlds : List World) : ∃ ms : List Metric,
    ((SignalSource.session c).collections worlds).flatten = ms.map Metric.intoSignal ∧
      ∀ m ∈ ms, m.kind = .gauge ∧ layerAttr ∉ m.entry.keys := by
  have hEntries : ∀ e ∈ Entry.ofSession, e.kind = .gauge ∧ layerAttr ∉ e.keys := by decide
  have hSession (before : List World) :
      ∃ c', (SignalSource.session c).after before = .session c' := by
    induction before using List.reverseRecOn with
    | nil => exact ⟨c, rfl⟩
    | append_singleton before world ih =>
      obtain ⟨c', hc'⟩ := ih
      rw [SignalSource.after_snoc, hc']
      exact ⟨_, rfl⟩
  have hMetric : ∀ x ∈ ((SignalSource.session c).collections worlds).flatten,
      ∃ m : Metric, m.intoSignal = x ∧ m.entry ∈ Entry.ofSession := by
    intro x hx
    obtain ⟨signals, hSignals, hMem⟩ := List.mem_flatten.mp hx
    obtain ⟨before, world, rfl⟩ := SignalSource.exists_of_mem_collections hSignals
    obtain ⟨c', hc'⟩ := hSession before
    rw [hc'] at hMem
    obtain ⟨m, rfl, hEntry, -⟩ := SignalSource.filed_of_says (.inl ⟨world, hMem⟩)
    exact ⟨m, rfl, hEntry⟩
  generalize ((SignalSource.session c).collections worlds).flatten = signals at hMetric
  induction signals with
  | nil => exact ⟨[], rfl, by simp⟩
  | cons x signals ih =>
    obtain ⟨ms, rfl, hms⟩ := ih fun y hy => hMetric y (List.mem_cons_of_mem x hy)
    obtain ⟨m, rfl, hEntry⟩ := hMetric x List.mem_cons_self
    exact ⟨m :: ms, rfl, List.forall_mem_cons.mpr ⟨hEntries m.entry hEntry, hms⟩⟩

/-- Over a disk that only grows, the values of a stream of a session rise. -/
theorem session_rises {fromStr : Json.FromStr} {workspace : Workspace} (source : String)
    (interval : Duration) {worlds : List World} (hParser : ∀ world ∈ worlds, world.fromStr = fromStr)
    (hReadable : ∀ fs ∈ worlds.map World.fs,
      ∀ p ∈ transcripts fs (workspace.sessionDirs fs), Readable fs p)
    (hGrows : (worlds.map World.fs).IsChain (SessionCollector.OnlyGrows workspace)) :
    ((SignalSource.session (.new workspace source interval)).collections
      worlds).flatten.Pairwise Rising := by
  apply rising_flatten
  · rw [collections_session _ hParser]
    have hUp : ReadUp fromStr [] (.new workspace source interval) := fun p state h => by cases h
    exact List.isChain_iff_pairwise.mp
      (SessionCollector.emissions_grow hUp hReadable hGrows.pairwise)
  · intro signals hSignals
    exact once_of_collections (by simp) hSignals

/-- As long as the transcripts of a workspace can be read and only grow, and its source is not being
retired, nothing the backend shows of the session ever falls: whatever the channel dropped, and however
the tasks and the drain took turns in between. -/
theorem no_session_gauge_falls_at_the_backend {σ : Type*} (sdk : Sdk σ) (hSdk : sdk.Documented)
    (clients : Clients) (criticalThreshold : UInt32) (boot : List SourceDescriptor)
    (capacity batchSize : Nat) (front back : List WatcherEvent) (v w : Watcher)
    (hFront : Run step Any (new criticalThreshold boot capacity batchSize) front v)
    (hBack : Run step Any v back w) (hPlayed : Played (front ++ back) w) (i : Nat) (t : Task)
    (hAlone : w.Alone i t) (workspace : Workspace) (source : String) (interval : Duration)
    (worlds : List World) (stand : Stand)
    (hPlays : (SignalSource.session (.new workspace source interval)).Plays worlds
      ((front ++ back).filterMap (WatcherEvent.own i)) stand)
    (hStays : stand.retires = false) (fromStr : Json.FromStr)
    (hParser : ∀ world ∈ worlds, world.fromStr = fromStr)
    (hReadable : ∀ fs ∈ worlds.map World.fs,
      ∀ p ∈ transcripts fs (workspace.sessionDirs fs), Readable fs p)
    (hGrows : (worlds.map World.fs).IsChain (SessionCollector.OnlyGrows workspace))
    (x : Emission) (hx : x ∈ v.pipeline.emissions) (hSource : x.source = t.desc) (m : Metric)
    (hm : x.stamped = .metric m) (value : F64)
    (hHeld : ((OtlpExporter.new sdk).exportAll sdk clients v.pipeline.batches).held sdk m = some value) :
    ∃ value', ((OtlpExporter.new sdk).exportAll sdk clients w.pipeline.batches).held sdk m =
      some value' ∧ value ≤ value' := by
  have hRun := hFront.append hBack
  have hSources := run_ofSources hRun hPlayed
  obtain ⟨v', hFront', -⟩ := run_append_iff.mp hSources
  obtain rfl := hFront.unique hFront'
  have hCoupled := (sourced_of_run hSources).1
  have hCoupled' := (sourced_of_run hFront').1
  have hLater : x ∈ w.pipeline.emissions := (grows_of_run hCoupled' hBack).1.subset hx
  have hOwn : x ∈ w.emissionsOf i := (hAlone.mem_emissionsOf hCoupled).mpr ⟨hLater, by rw [hSource]⟩
  -- what the source has said is the beginning of what its collections say
  obtain ⟨ms, hMetrics, hms⟩ := metrics_of_session (.new workspace source interval) worlds
  have hSaid := said_prefix hRun hPlays hStays
  have hRises := session_rises source interval hParser hReadable hGrows
  rw [hMetrics] at hSaid hRises
  have hAgg : Aggregation.ofKind m.kind = some .lastValue := by
    obtain ⟨n, hn, hSignal⟩ := List.mem_map.mp (hSaid.subset (List.mem_map_of_mem hOwn))
    rw [Emission.stamped, ← hSignal, stampLayer_intoSignal] at hm
    obtain rfl := Signal.metric.inj hm
    rw [show (n.stamp x.source.layer).kind = n.kind from rfl, (hms n hn).1]
    rfl
  rw [held_of_lastValue hSdk hFront' hx hSource hm hAgg] at hHeld
  rw [held_of_lastValue hSdk hSources hLater hSource hm hAgg]
  refine getLast?_rises ?_ (((exportedOf_grows hCoupled' hBack t).map _).filterMap _) hHeld
  have hSub : ((w.exportedOf t).map Emission.stamped).Sublist
      ((ms.map Metric.intoSignal).map (stampLayer t.desc.layer)) := by
    have hExported := (hAlone.exportedOf_prefix hCoupled).sublist.trans List.filter_sublist
    rw [hCoupled.stamped_eq hAlone.1 fun y hy => hExported.subset hy]
    exact ((hExported.map _).trans hSaid.sublist).map _
  exact (written_rising m hRises fun n hn => (hms n hn).2).sublist (hSub.filterMap _)

/-- Once the drain has caught up with a source that has returned from its last collection, the backend
shows each gauge and each UpDownCounter of it as that collection found it, if the channel had room for
it: whatever became of the collections before, of the other sources and of the batches. -/
theorem the_backend_shows_the_last_collection {σ : Type*} (sdk : Sdk σ) (hSdk : sdk.Documented)
    (clients : Clients) (criticalThreshold : UInt32) (boot : List SourceDescriptor)
    (capacity batchSize : Nat) (events : List WatcherEvent) (w : Watcher)
    (hRun : Run step Any (new criticalThreshold boot capacity batchSize) events w)
    (hPlayed : Played events w) (i : Nat) (t : Task) (hAlone : w.Alone i t) (s c : SignalSource)
    (hProbe : ∀ c, s = .endpointProbe c → c.targets.Nodup) (worlds : List World) (world : World)
    (hPlays : s.Plays (worlds ++ [world]) (events.filterMap (WatcherEvent.own i)) (.idle c))
    (hChannel : w.pipeline.channel = []) (hBuffer : w.pipeline.buffer = [])
    (hRoom : ∀ x ∈ (w.emissionsOf i).drop (s.collections worlds).flatten.length, x.accepted)
    (m : Metric) (hm : m.intoSignal ∈ ((s.after worlds).collect world).2.1)
    (hAgg : Aggregation.ofKind m.kind = some .lastValue) :
    ((OtlpExporter.new sdk).exportAll sdk clients w.pipeline.batches).held sdk
      (m.stamp t.desc.layer) = some m.value := by
  have hSources := run_ofSources hRun hPlayed
  have hCoupled := (sourced_of_run hSources).1
  set n := (s.collections worlds).flatten.length with hn
  have hLast : ((w.emissionsOf i).drop n).map Emission.signal =
      ((s.after worlds).collect world).2.1 := by
    have hSaid := hPlays.said_eq
    simp only [Stand.rest, Stand.retires, Bool.false_eq_true, if_false, List.append_nil] at hSaid
    rw [List.map_drop, emissionsOf_eq hRun, hSaid, SignalSource.collections_snoc, List.flatten_append,
      List.flatten_singleton, hn, List.drop_left]
  obtain ⟨x, hx, hSignal⟩ := List.mem_map.mp (hLast ▸ hm)
  have hOwn : x ∈ w.emissionsOf i := List.mem_of_mem_drop hx
  have hSource : x.source = t.desc := (hCoupled.told i t hAlone.1).source x hOwn
  have hStamped : x.stamped = .metric (m.stamp t.desc.layer) := by
    rw [Emission.stamped, hSignal, hSource]
    rfl
  have hEmitted := ((hAlone.mem_emissionsOf hCoupled).mp hOwn).1
  have hTook : (w.emissionsOf i).filter Emission.accepted =
      ((w.emissionsOf i).take n).filter Emission.accepted ++ (w.emissionsOf i).drop n := by
    conv_lhs => rw [← List.take_append_drop n (w.emissionsOf i), List.filter_append]
    rw [List.filter_eq_self.mpr hRoom]
  have hSays : ∀ signal ∈ ((s.after worlds).collect world).2.1, (s.after worlds).Says signal :=
    fun signal h => .inl ⟨world, h⟩
  have hOnce : (SignalSource.written
      (((s.after worlds).collect world).2.1.map (stampLayer t.desc.layer))).Nodup :=
    (SignalSource.nodup_stamped hSays).mpr ((SignalSource.nodup_collect _ world).mpr fun c hc =>
      hProbe c (SignalSource.endpointProbe_after hc))
  have hWritten : written (m.stamp t.desc.layer)
      (((s.after worlds).collect world).2.1.map (stampLayer t.desc.layer)) = [m.value] :=
    written_once (m := m.stamp t.desc.layer) hOnce
      (List.mem_map_of_mem (f := stampLayer t.desc.layer) hm)
  rw [held_of_lastValue hSdk hSources hEmitted hSource hStamped hAgg,
    hAlone.exportedOf_eq hCoupled hChannel hBuffer, hTook, List.map_append, written_append,
    hCoupled.stamped_eq hAlone.1 fun y hy => List.mem_of_mem_drop hy, hLast, hWritten,
    List.getLast?_concat]

end Backend

section Sample

open ContainerCollector (sampleSdk sampleSdk_documented sampleClients)

def quickSession : SignalSource := .session (.new sampleWorkspace "picoclaw" 1)

/-- A first transcript, still empty. -/
def startedWorld : World := { idleWorld with fs := said [] }

def ofTask (es : List TaskEvent) : List WatcherEvent := es.map fun e => .process (.task 0 e)

def flushed : List WatcherEvent :=
  [.drain .received, .drain .received, .drain .received, .drain .flushTick, .drain (.exported (.ok ()))]

def firstTick : List WatcherEvent :=
  [.process (.command (.add quickSession.descriptor)), .process (.polled 0)] ++
    ofTask (.probed (quickSession.probe idleWorld) :: quickSession.tick idleWorld) ++ flushed

def secondTick : List WatcherEvent :=
  [.process .advance] ++ ofTask ((quickSession.collect idleWorld).1.tick startedWorld) ++ flushed

def afterFirst : Watcher := after step (new 3 [] 8 512) firstTick

def afterSecond : Watcher := after step afterFirst secondTick

theorem run_firstTick : Run step Any (new 3 [] 8 512) firstTick afterFirst := run_after rfl

theorem run_secondTick : Run step Any afterFirst secondTick afterSecond := run_after rfl

theorem quickSession_plays : quickSession.Plays [idleWorld, startedWorld]
    ((firstTick ++ secondTick).filterMap (WatcherEvent.own 0))
      (.idle (quickSession.after [idleWorld, startedWorld])) :=
  ((SignalSource.Plays.start.probed idleWorld).tick idleWorld).tick startedWorld

theorem alone_afterSecond {t : Task} (hTask : afterSecond.process.supervisor.tasks[0]? = some t) :
    afterSecond.Alone 0 t := by
  have hLength : afterSecond.process.supervisor.tasks.length = 1 := rfl
  refine ⟨hTask, fun j u hOther _ => ?_⟩
  have hLt := (List.getElem?_eq_some_iff.mp hOther).1
  omega

theorem played_afterSecond : Played (firstTick ++ secondTick) afterSecond := by
  have hLength : afterSecond.process.supervisor.tasks.length = 1 := rfl
  intro i t hTask
  have hLt := (List.getElem?_eq_some_iff.mp hTask).1
  obtain rfl : i = 0 := by omega
  cases hTask
  exact ⟨quickSession, .session _ _ _, rfl, _, _, quickSession_plays⟩

theorem a_first_transcript_counts_up : ∃ value',
    ((OtlpExporter.new sampleSdk).exportAll sampleSdk sampleClients afterSecond.pipeline.batches).held
      sampleSdk (zeroSessions.stamp .harness) = some value' ∧ 0 ≤ value' := by
  have hNone : transcripts idleWorld.fs (sampleWorkspace.sessionDirs idleWorld.fs) = [] := by decide
  have hOne : transcripts (said []) (sampleWorkspace.sessionDirs (said [])) = [saidPath] := by decide
  apply no_session_gauge_falls_at_the_backend sampleSdk sampleSdk_documented sampleClients 3 [] 8 512
    firstTick secondTick afterFirst afterSecond run_firstTick run_secondTick played_afterSecond 0 _
    (alone_afterSecond rfl) sampleWorkspace "picoclaw" 1 _ _ quickSession_plays rfl sampleFromStr
  · simp [idleWorld, startedWorld]
  · simp only [List.map_cons, List.map_nil, List.forall_mem_cons]
    refine ⟨by simp [hNone], ?_, by simp⟩
    change ∀ p ∈ transcripts (said []) (sampleWorkspace.sessionDirs (said [])), Readable (said []) p
    rw [hOne]
    exact List.forall_mem_singleton.mpr (said_readable (by decide))
  · refine .cons_cons ⟨fun _ => by decide, by simp [hNone], fun p hp => ?_⟩ (.singleton _)
    rw [hNone] at hp
    cases hp
  · exact List.mem_of_getElem? (i := 1) rfl
  · rfl
  · rfl
  · rfl

theorem a_first_transcript_is_shown :
    ((OtlpExporter.new sampleSdk).exportAll sampleSdk sampleClients afterSecond.pipeline.batches).held
      sampleSdk ((sampleCollector.tag (.now "harnesssphere.harness.sessions" .gauge 1)).stamp
        .harness) = some 1 :=
  the_backend_shows_the_last_collection sampleSdk sampleSdk_documented sampleClients 3 [] 8 512
    (firstTick ++ secondTick) afterSecond (run_firstTick.append run_secondTick) played_afterSecond 0 _
    (alone_afterSecond rfl) quickSession _ (by simp [quickSession]) [idleWorld] startedWorld
    quickSession_plays rfl rfl (by decide) _ (List.mem_of_getElem? (i := 1) rfl) rfl

end Sample

end Watcher

end HarnessSphere
