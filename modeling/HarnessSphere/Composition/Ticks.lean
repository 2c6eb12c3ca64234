import HarnessSphere.Composition.Catalogue

/-! # One tick of everything

Behind the sinks, sources of different names never write one series, and a source writes none twice.
Only the configuration can break this: an endpoint listed twice is probed twice.
-/

namespace HarnessSphere

namespace SignalSource

section Apart

variable {s s' : SignalSource} {m m' : Metric} {layer layer' : Layer}

theorem entry_mem_entries (h : s.Says m.intoSignal) : m.entry ∈ s.entries := by
  obtain ⟨m', hMetric, hEntry, -⟩ := filed_of_says h
  obtain rfl := Signal.metric.inj hMetric
  exact hEntry

theorem series_ne_of_slot (hSlot : s.slot < s'.slot) (h : s.Says m.intoSignal)
    (h' : s'.Says m'.intoSignal) : (m.stamp layer).series ≠ (m'.stamp layer').series := by
  intro hSeries
  obtain ⟨hName, hAttributes⟩ := Prod.mk.inj hSeries
  have hIn {s : SignalSource} {e : Entry} (he : e ∈ s.entries) :
      ∃ hLt : s.slot < Entry.catalogue.length, e ∈ Entry.catalogue[s.slot] := by
    unfold entries at he
    cases hSlot : Entry.catalogue[s.slot]? with
    | none =>
      rw [hSlot] at he
      cases he
    | some es =>
      obtain ⟨hLt, rfl⟩ := List.getElem?_eq_some_iff.mp hSlot
      rw [hSlot] at he
      exact ⟨hLt, he⟩
  obtain ⟨hLt, he⟩ := hIn (entry_mem_entries h)
  obtain ⟨hLt', he'⟩ := hIn (entry_mem_entries h')
  have hApart := List.pairwise_iff_getElem.mp Entry.pairwise_apart _ _ hLt hLt' hSlot m.entry he
    m'.entry he' hName
  rw [← m.entry_stamp layer, ← m'.entry_stamp layer'] at hApart
  apply hApart
  rw [Metric.entry, Metric.entry, hAttributes]

/-- The workspace of a discovered source, whose tags are on all it says. -/
theorem tags_of_session {c : SessionCollector} (h : (session c).Says m.intoSignal) :
    c.workspace.Tags SessionCollector.metricNames m.series := by
  have hOf {signals : List Signal} (hm : m.intoSignal ∈ signals) :
      m.series ∈ (gaugeWrites signals).map Prod.fst :=
    List.mem_map.mpr ⟨(m.series, m.value), List.mem_filterMap.mpr ⟨_, hm, rfl⟩, rfl⟩
  obtain ⟨world, hCollect⟩ | hRetire := h
  · exact (c.tickOf_collect world.fromStr world.fs).tagged _ (hOf hCollect)
  · have hSeries := hOf hRetire
    change m.series ∈ (gaugeWrites c.retire).map Prod.fst at hSeries
    rw [c.writes_retire] at hSeries
    simp only [List.map_cons, List.map_nil, List.mem_cons, List.not_mem_nil, or_false] at hSeries
    rcases hSeries with hEq | hEq | hEq <;>
      exact ⟨c.source, [], _, by simp [SessionCollector.metricNames], hEq⟩

theorem tags_of_learning {c : LearningCollector} (h : (learning c).Says m.intoSignal) :
    c.workspace.Tags LearningCollector.metricNames m.series := by
  have hOf {signals : List Signal} (hm : m.intoSignal ∈ signals) :
      m.series ∈ (gaugeWrites signals).map Prod.fst :=
    List.mem_map.mpr ⟨(m.series, m.value), List.mem_filterMap.mpr ⟨_, hm, rfl⟩, rfl⟩
  obtain ⟨world, hCollect⟩ | hRetire := h
  · exact (c.tickOf_collect world.fromStr world.fs).tagged _ (hOf hCollect)
  · have hSeries := hOf hRetire
    change m.series ∈ (gaugeWrites c.retire).map Prod.fst at hSeries
    rw [c.writes_retire] at hSeries
    simp only [List.map_cons, List.map_nil, List.mem_cons, List.not_mem_nil, or_false] at hSeries
    rcases hSeries with hEq | hEq | hEq | hEq | hEq | hEq <;>
      exact ⟨c.source, [], _, by simp [LearningCollector.metricNames], hEq⟩

theorem plain_of_slot (hSlot : s.slot ≠ 3) (h : s.Says m.intoSignal) : layerAttr ∉ m.entry.keys := by
  have hPlain : ∀ e ∈ s.entries, layerAttr ∉ e.keys := by
    cases s <;> first | exact absurd rfl hSlot | (simp only [entries, slot]; decide)
  exact hPlain _ (entry_mem_entries h)

/-- Two sources of different names never write one series. -/
theorem series_ne_of_name (hMade : Made s) (hMade' : Made s')
    (hName : s.descriptor.name ≠ s'.descriptor.name) (h : s.Says m.intoSignal)
    (h' : s'.Says m'.intoSignal) : (m.stamp layer).series ≠ (m'.stamp layer').series := by
  obtain hLt | hSame | hGt := lt_trichotomy s.slot s'.slot
  · exact series_ne_of_slot hLt h h'
  · intro hSeries
    have hIdentity := congrArg Prod.fst hMade.identity
    have hIdentity' := congrArg Prod.fst hMade'.identity
    dsimp only at hIdentity hIdentity'
    rw [hIdentity, hIdentity'] at hName
    cases s <;> cases s' <;>
      first | exact absurd rfl hName | exact absurd hSame (Nat.ne_of_beq_eq_false rfl) | skip
    · have hOld := series_of_stamp (plain_of_slot (by simp [slot]) h) (plain_of_slot (by simp [slot]) h') hSeries
      have hTuple := Workspace.tuple_of_tags (tags_of_session h) (hOld ▸ tags_of_session h')
      exact hName (sourceName_eq_of_tuple hTuple)
    · have hOld := series_of_stamp (plain_of_slot (by simp [slot]) h) (plain_of_slot (by simp [slot]) h') hSeries
      have hTuple := Workspace.tuple_of_tags (tags_of_learning h) (hOld ▸ tags_of_learning h')
      exact hName (congrArg learningKey (sourceName_eq_of_tuple hTuple))
  · exact (series_ne_of_slot hGt h' h).symm

end Apart

section Once

variable {layer : Layer}

/-- The series a source writes, in order. -/
def written (signals : List Signal) : List Series := (gaugeWrites signals).map Prod.fst

theorem written_append (xs ys : List Signal) : written (xs ++ ys) = written xs ++ written ys := by
  rw [written, gaugeWrites_append, List.map_append]
  rfl

theorem written_flatMap {α : Type} (l : List α) (signals : α → List Signal) :
    written (l.flatMap signals) = l.flatMap fun x => written (signals x) := by
  rw [written, gaugeWrites, List.filterMap_flatMap, List.map_flatMap]
  rfl

theorem nodup_host (sys : Sysinfo) : (written (HostCollector.collect sys).1).Nodup := by
  have hSub : (written (HostCollector.collect sys).1).Sublist
      [("system.cpu.utilization", []), ("system.memory.usage", [("system.memory.state", .str "used")]),
        ("system.memory.usage", [("system.memory.state", .str "free")]),
        ("system.memory.usage", [("system.memory.state", .str "available")]),
        ("system.memory.utilization", [("system.memory.state", .str "used")]),
        ("system.paging.usage", [("system.paging.state", .str "used")]),
        ("system.paging.utilization", [])] := by
    unfold HostCollector.collect
    split_ifs <;> simp [written, gaugeWrites, Metric.intoSignal, Metric.series, Metric.attr,
      Metric.withUnit, Metric.now]
  exact hSub.nodup (by decide)

theorem written_processSignals (tag : Attributes) {f : Metric → Metric} (stat : ProcessStat)
    (hTag : ∀ m, (f m).series = (m.name, m.attributes ++ tag)) :
    written (processSignals f stat) =
      [("process.cpu.utilization", tag), ("process.memory.usage", tag),
        ("process.memory.virtual", tag)] := by
  simp [processSignals, written, gaugeWrites, Metric.intoSignal, hTag, Metric.withUnit, Metric.now]

theorem nodup_self (sys : Sysinfo) (c : SelfCollector) : (written (c.collect sys).1).Nodup := by
  unfold SelfCollector.collect
  split
  · exact List.nodup_nil
  · rw [written_processSignals [("process.executable.name", .str "harnesssphere")] _ fun _ => rfl]
    decide

/-- Two processes never have one number, whatever their names. -/
theorem nodup_process (sys : Sysinfo) (c : ProcessCollector) :
    (written (c.collect sys).1).Nodup := by
  have hTag (pid : UInt32) (stat : ProcessStat) (m : Metric) :
      (ProcessCollector.tag pid stat m).series = (m.name, m.attributes ++
        [("process.executable.name", .str stat.exe), ("process.pid", .int pid.toNat)]) := by
    simp [ProcessCollector.tag, Metric.attr, Metric.series]
  unfold ProcessCollector.collect
  rw [written_flatMap]
  apply List.nodup_flatMap.mpr
  constructor
  · rintro ⟨pid, stat⟩ -
    dsimp only
    split_ifs
    · exact List.nodup_nil
    · rw [written_processSignals _ _ (hTag pid stat)]
      simp
  · refine (List.pairwise_map.mp sys.processes.keys_nodup).imp ?_
    rintro ⟨pid, stat⟩ ⟨pid', stat'⟩ hPid s hs hs'
    dsimp only at hs hs'
    split_ifs at hs hs'
    · cases hs
    · cases hs
    · cases hs'
    · rw [written_processSignals _ _ (hTag _ _)] at hs hs'
      apply hPid
      simp only [List.mem_cons, List.not_mem_nil, or_false] at hs hs'
      rcases hs with rfl | rfl | rfl <;> simp [UInt32.toNat_inj] at hs' <;> exact hs'.2

theorem written_counted (fs : Fs) (c : ContainerCollector) (totals : List ContainerCollector.Total) :
    (written (c.counted fs totals)).Sublist
      (totals.map fun total => (total.name, total.attributes c)) := by
  induction totals with
  | nil => exact .slnil
  | cons total totals ih =>
    have hCons : c.counted fs (total :: totals) = c.counted fs [total] ++ c.counted fs totals :=
      ContainerCollector.counted_append [total] totals
    have hHead : (written (c.counted fs [total])).Sublist [(total.name, total.attributes c)] := by
      cases hRead : total.reading fs c with
      | none => simp [ContainerCollector.counted, hRead, written, gaugeWrites]
      | some n => simp [ContainerCollector.counted, hRead, written, gaugeWrites, Metric.intoSignal,
          Metric.series, ContainerCollector.Total.metric]
    rw [hCons, written_append]
    exact hHead.append ih

theorem written_levels (fs : Fs) (c : ContainerCollector) :
    (written (c.levels fs)).Sublist
      [("container.memory.usage", [("container.id", .str c.containerId)]),
        ("harnesssphere.container.memory.limit", [("container.id", .str c.containerId)])] := by
  unfold ContainerCollector.levels ContainerCollector.memory ContainerCollector.memoryMax
  split
  · simp [written, gaugeWrites]
  · split <;> simp [written, gaugeWrites, Metric.intoSignal, Metric.series, Metric.attr,
      Metric.withUnit, Metric.now]

theorem nodup_container (fs : Fs) (c : ContainerCollector) : (written (c.collect fs).1).Nodup := by
  rw [ContainerCollector.signals_collect, written_append]
  refine ((written_levels fs c).append (written_counted fs c _)).nodup ?_
  simp [ContainerCollector.Total.all, ContainerCollector.Total.name,
    ContainerCollector.Total.attributes]

/-- An endpoint is told apart by its address and its layer together. -/
theorem nodup_probe (connect : Nat → ProbeTarget → Attempt) (c : EndpointProbeCollector) :
    (written (c.collect connect).1).Nodup ↔ c.targets.Nodup := by
  let series (target : ProbeTarget) : List Series :=
    let tag := [("server.address", .str target.address), (layerAttr, .str target.layer.asStr)]
    [("harnesssphere.endpoint.up", tag), ("harnesssphere.endpoint.probe.duration", tag)]
  have hWritten : written (c.collect connect).1 = c.targets.flatMap series := by
    have hTargets : c.targets.flatMap series = c.targets.zipIdx.flatMap fun t => series t.1 := by
      rw [← List.flatMap_map, List.zipIdx_map_fst]
    rw [hTargets, EndpointProbeCollector.collect, written_flatMap]
    rfl
  rw [hWritten, List.nodup_flatMap]
  constructor
  · rintro ⟨-, hApart⟩
    refine hApart.imp fun {target target'} hDisjoint => ?_
    rintro rfl
    exact hDisjoint List.mem_cons_self List.mem_cons_self
  · intro hTargets
    refine ⟨fun target _ => by simp [series], hTargets.imp ?_⟩
    intro target target' hNe s hs hs'
    apply hNe
    have hLayer {l l' : Layer} (h : l.asStr = l'.asStr) : l = l' :=
      Option.some.inj (((Layer.parse_eq_some_iff _ l).mpr rfl).symm.trans
        ((Layer.parse_eq_some_iff _ l').mpr h))
    simp only [series, List.mem_cons, List.not_mem_nil, or_false] at hs hs'
    rcases hs with rfl | rfl <;> simp at hs' <;>
      exact ProbeTarget.ext hs'.1 (hLayer hs'.2)

theorem nodup_collect (s : SignalSource) (world : World) :
    (written (s.collect world).2.1).Nodup ↔ ∀ c, s = endpointProbe c → c.targets.Nodup := by
  cases s with
  | host c => simpa using! nodup_host world.sys
  | self c => simpa using! nodup_self world.sys c
  | process c => simpa using! nodup_process world.sys c
  | endpointProbe c => simpa using! nodup_probe world.connect c
  | container c => simpa using! nodup_container world.fs c
  | discovery c => simp [collect, DiscoveryStats.collect, written, gaugeWrites, Metric.intoSignal,
      Metric.series, Metric.now]
  | session c => simpa using! (c.tickOf_collect world.fromStr world.fs).series
  | learning c => simpa using! (c.tickOf_collect world.fromStr world.fs).series

theorem exists_metrics {s : SignalSource} {signals : List Signal} (hSays : ∀ x ∈ signals, s.Says x) :
    ∃ ms : List Metric, signals = ms.map Metric.intoSignal := by
  have hRange : signals ∈ Set.range (List.map Metric.intoSignal) := by
    rw [Set.range_list_map]
    intro x hx
    obtain ⟨m, rfl, -⟩ := filed_of_says (hSays x hx)
    exact ⟨m, rfl⟩
  obtain ⟨ms, rfl⟩ := hRange
  exact ⟨ms, rfl⟩

theorem written_metrics (ms : List Metric) :
    written (ms.map Metric.intoSignal) = ms.map Metric.series := by
  simp [written, gaugeWrites, Metric.intoSignal, List.filterMap_map, Function.comp_def]

theorem layered_of_slot {s : SignalSource} (hSlot : s.slot = 3) {m : Metric}
    (h : s.Says m.intoSignal) : layerAttr ∈ m.entry.keys := by
  have hLayered : ∀ e ∈ Entry.ofProbe, layerAttr ∈ e.keys := by decide
  have hEntries : s.entries = Entry.ofProbe := by simp [entries, hSlot, Entry.catalogue]
  exact hLayered _ (hEntries ▸ entry_mem_entries h)

/-- Behind the sink of a source its series are as many as before. -/
theorem nodup_stamped {s : SignalSource} {signals : List Signal} (hSays : ∀ x ∈ signals, s.Says x) :
    (written (signals.map (stampLayer layer))).Nodup ↔ (written signals).Nodup := by
  obtain ⟨ms, rfl⟩ := exists_metrics hSays
  have hSays (m : Metric) (hm : m ∈ ms) : s.Says m.intoSignal := hSays _ (List.mem_map_of_mem hm)
  have hStamped : (ms.map Metric.intoSignal).map (stampLayer layer) =
      (ms.map (Metric.stamp layer)).map Metric.intoSignal := by
    rw [List.map_map, List.map_map]
    rfl
  rw [hStamped, written_metrics, written_metrics, List.map_map]
  unfold List.Nodup
  rw [List.pairwise_map, List.pairwise_map]
  refine List.Pairwise.iff_of_mem fun {m m'} hm hm' => not_congr ?_
  constructor
  · intro hSeries
    by_cases hSlot : s.slot = 3
    · have hSame {m : Metric} (hm : m ∈ ms) : m.stamp layer = m := by
        unfold Metric.stamp
        rw [if_pos (m.carries_iff.mpr (layered_of_slot hSlot (hSays m hm)))]
      rwa [Function.comp_apply, Function.comp_apply, hSame hm, hSame hm'] at hSeries
    · exact series_of_stamp (plain_of_slot hSlot (hSays m hm)) (plain_of_slot hSlot (hSays m' hm'))
        hSeries
  · intro hSeries
    obtain ⟨hName, hAttributes⟩ := Prod.mk.inj hSeries
    refine Prod.ext hName ?_
    change (m.stamp layer).attributes = (m'.stamp layer).attributes
    simp only [Metric.stamp, hAttributes]

end Once

/-- What one tick of each source sends on, each through the sink of the source. -/
def throughSinks (ticks : List (World × SignalSource)) : List Signal :=
  ticks.flatMap fun t => (t.2.collect t.1).2.1.map (stampLayer t.2.descriptor.layer)

theorem mem_written_stamped {s : SignalSource} {signals : List Signal} {layer : Layer} {x : Series}
    (hSays : ∀ x ∈ signals, s.Says x) (h : x ∈ written (signals.map (stampLayer layer))) :
    ∃ m : Metric, s.Says m.intoSignal ∧ x = (m.stamp layer).series := by
  obtain ⟨ms, rfl⟩ := exists_metrics hSays
  obtain ⟨⟨x, v⟩, hWrite, rfl⟩ := List.mem_map.mp h
  obtain ⟨signal, hSignal, hEq⟩ := List.mem_filterMap.mp hWrite
  obtain ⟨old, hOld, rfl⟩ := List.mem_map.mp hSignal
  obtain ⟨m, -, rfl⟩ := List.mem_map.mp hOld
  exact ⟨m, hSays _ hOld, congrArg Prod.fst (Option.some.inj hEq).symm⟩

end SignalSource

/-- Sources of different names write each series once in a tick, unless an endpoint is listed twice. -/
theorem one_tick_writes_each_series_once (ticks : List (World × SignalSource))
    (hMade : ∀ t ∈ ticks, t.2.Made) (hNames : (ticks.map fun t => t.2.descriptor.name).Nodup) :
    OneWriteEach (SignalSource.throughSinks ticks) ↔
      ∀ t ∈ ticks, ∀ c, t.2 = .endpointProbe c → c.targets.Nodup := by
  have hSays (t : World × SignalSource) : ∀ x ∈ (t.2.collect t.1).2.1, t.2.Says x :=
    fun x hx => .inl ⟨t.1, hx⟩
  have hApart : ticks.Pairwise fun t t' =>
      (SignalSource.written ((t.2.collect t.1).2.1.map (stampLayer t.2.descriptor.layer))).Disjoint
        (SignalSource.written
          ((t'.2.collect t'.1).2.1.map (stampLayer t'.2.descriptor.layer))) := by
    refine (List.pairwise_map.mp hNames).imp_of_mem fun {t t'} ht ht' hName x hx hx' => ?_
    obtain ⟨m, hm, rfl⟩ := SignalSource.mem_written_stamped (hSays t) hx
    obtain ⟨m', hm', hSeries⟩ := SignalSource.mem_written_stamped (hSays t') hx'
    exact SignalSource.series_ne_of_name (hMade t ht) (hMade t' ht') hName hm hm' hSeries
  have hNodup : (SignalSource.written (SignalSource.throughSinks ticks)).Nodup ↔
      ∀ t ∈ ticks, ∀ c, t.2 = .endpointProbe c → c.targets.Nodup := by
    rw [SignalSource.throughSinks, SignalSource.written_flatMap, List.nodup_flatMap]
    refine (and_iff_left hApart).trans (forall₂_congr fun t _ => ?_)
    rw [SignalSource.nodup_stamped (hSays t), SignalSource.nodup_collect]
  refine ⟨fun h => hNodup.mp h.series, fun h => ⟨fun x hx => ?_, hNodup.mpr h⟩⟩
  obtain ⟨t, -, hx⟩ := List.mem_flatMap.mp hx
  obtain ⟨x, hOld, rfl⟩ := List.mem_map.mp hx
  obtain ⟨m, rfl, -⟩ := SignalSource.filed_of_says (hSays t x hOld)
  exact ⟨_, rfl⟩

def idleWorld : World where
  fs := (sampleDisk []).fs
  fromStr := sampleFromStr
  sys := ⟨0, 8, 2, 6, 6, 0, 0, ∅⟩
  connect := fun _ _ => ⟨false, 0⟩
  workspaces := 0
  scans := 0

theorem an_endpoint_of_two_layers_is_written_once_each :
    OneWriteEach (SignalSource.throughSinks
      [(idleWorld, .host (.new 15)),
        (idleWorld, .endpointProbe (.new [⟨"llm:4000", .proxy⟩, ⟨"llm:4000", .gateway⟩] 30))]) := by
  refine (one_tick_writes_each_series_once _ (List.forall_mem_cons.mpr ⟨.host 15,
    List.forall_mem_singleton.mpr (.endpointProbe _ 30)⟩) (by decide)).mpr ?_
  intro t ht c hProbe
  obtain rfl | ht := List.mem_cons.mp ht
  · cases hProbe
  · obtain rfl := List.mem_singleton.mp ht
    obtain rfl := SignalSource.endpointProbe.inj hProbe
    decide

end HarnessSphere
