import HarnessSphere.Composition.Sources
import HarnessSphere.Export.Streams

/-! # The catalogue of metrics

Every metric of the program, with its kind, its unit and the keys of its attributes. Two sources share
a name only where the attributes of one have a key more.
-/

namespace HarnessSphere

structure Entry where
  name : String
  kind : MetricKind
  unit : Option String
  keys : List String
  deriving DecidableEq, Repr

def Metric.entry (m : Metric) : Entry := ⟨m.name, m.kind, m.unit, m.attributes.map Prod.fst⟩

namespace Entry

def ofHost : List Entry :=
  [⟨"system.cpu.utilization", .gauge, none, []⟩,
    ⟨"system.memory.usage", .upDownCounter, some "By", ["system.memory.state"]⟩,
    ⟨"system.memory.utilization", .gauge, none, ["system.memory.state"]⟩,
    ⟨"system.paging.usage", .upDownCounter, some "By", ["system.paging.state"]⟩,
    ⟨"system.paging.utilization", .gauge, none, []⟩]

def ofProcess (keys : List String) : List Entry :=
  [⟨"process.cpu.utilization", .gauge, none, keys⟩,
    ⟨"process.memory.usage", .upDownCounter, some "By", keys⟩,
    ⟨"process.memory.virtual", .upDownCounter, some "By", keys⟩]

def ofProbe : List Entry :=
  [⟨"harnesssphere.endpoint.up", .gauge, none, ["server.address", layerAttr]⟩,
    ⟨"harnesssphere.endpoint.probe.duration", .gauge, some "s", ["server.address", layerAttr]⟩]

def ofContainer : List Entry :=
  [⟨"container.memory.usage", .upDownCounter, some "By", ["container.id"]⟩,
    ⟨"harnesssphere.container.memory.limit", .gauge, some "By", ["container.id"]⟩,
    ⟨"harnesssphere.container.memory.oom", .counter, none, ["container.id"]⟩,
    ⟨"container.cpu.time", .counter, some "s", ["container.id"]⟩,
    ⟨"harnesssphere.container.cpu.throttled", .counter, some "s", ["container.id"]⟩,
    ⟨"container.disk.io", .counter, some "By", ["container.id", "disk.io.direction"]⟩]

def ofDiscovery : List Entry :=
  [⟨"harnesssphere.discovery.workspaces", .gauge, none, []⟩,
    ⟨"harnesssphere.discovery.scans", .gauge, none, []⟩]

def workspaceKeys : List String :=
  ["crab.tenant", "crab.subscription", "crab.agent", "crab.user", "harness.name"]

def ofSession : List Entry :=
  [⟨"harnesssphere.harness.messages", .gauge, none, workspaceKeys ++ ["role"]⟩,
    ⟨"harnesssphere.tool.calls", .gauge, none, workspaceKeys⟩,
    ⟨"harnesssphere.harness.sessions", .gauge, none, workspaceKeys⟩,
    ⟨"harnesssphere.harness.cron.sessions", .gauge, none, workspaceKeys⟩]

/-- The size of the memory comes with its unit from a collection and without it from a retirement. -/
def ofLearning : List Entry :=
  [⟨"harnesssphere.harness.skills", .gauge, none, workspaceKeys⟩,
    ⟨"harnesssphere.harness.memory.files", .gauge, none, workspaceKeys⟩,
    ⟨"harnesssphere.graph.entities", .gauge, none, workspaceKeys⟩,
    ⟨"harnesssphere.graph.relations", .gauge, none, workspaceKeys⟩,
    ⟨"harnesssphere.graph.observations", .gauge, none, workspaceKeys⟩,
    ⟨"harnesssphere.harness.memory.bytes", .gauge, some "By", workspaceKeys⟩,
    ⟨"harnesssphere.harness.memory.bytes", .gauge, none, workspaceKeys⟩,
    ⟨"harnesssphere.harness.skill", .gauge, none, workspaceKeys ++ ["skill.name"]⟩]

def catalogue : List (List Entry) :=
  [ofHost, ofProcess ["process.executable.name"],
    ofProcess ["process.executable.name", "process.pid"], ofProbe, ofContainer, ofDiscovery, ofSession,
    ofLearning]

/-- The entry as it looks behind a sink that adds the layer where it is missing. -/
def stamped (e : Entry) : Entry :=
  if layerAttr ∈ e.keys then e else { e with keys := e.keys ++ [layerAttr] }

@[simp] theorem name_stamped (e : Entry) : e.stamped.name = e.name := by
  unfold stamped
  split_ifs <;> rfl

@[simp] theorem kind_stamped (e : Entry) : e.stamped.kind = e.kind := by
  unfold stamped
  split_ifs <;> rfl

theorem keys_nodup : ∀ e ∈ catalogue.flatten, e.stamped.keys.Nodup := by decide +kernel

theorem name_lower : ∀ e ∈ catalogue.flatten, e.name.toList.map Char.toLower = e.name.toList := by
  simp [catalogue, ofHost, ofProcess, ofProbe, ofContainer, ofDiscovery, ofSession, ofLearning]

/-- Of one name there is one kind, and two lists of keys never have one length. -/
theorem agree_of_name : ∀ e ∈ catalogue.flatten, ∀ e' ∈ catalogue.flatten, e.name = e'.name →
    e.kind = e'.kind ∧
      (e.stamped.keys = e'.stamped.keys ∨ e.stamped.keys.length ≠ e'.stamped.keys.length) := by
  decide +kernel

theorem pairwise_apart : catalogue.Pairwise fun es es' => ∀ e ∈ es, ∀ e' ∈ es', e.name = e'.name →
    e.stamped.keys.length ≠ e'.stamped.keys.length := by
  decide +kernel

end Entry

namespace SignalSource

/-- The place of a source in the catalogue. -/
def slot : SignalSource → Nat
  | host _ => 0
  | self _ => 1
  | process _ => 2
  | endpointProbe _ => 3
  | container _ => 4
  | discovery _ => 5
  | session _ => 6
  | learning _ => 7

def entries (s : SignalSource) : List Entry := (Entry.catalogue[s.slot]?).getD []

theorem entries_mem_catalogue (s : SignalSource) : s.entries ∈ Entry.catalogue := by
  cases s <;> simp [entries, slot, Entry.catalogue]

end SignalSource

/-- A metric that stands in the catalogue, and is not negative. -/
def Filed (es : List Entry) (signal : Signal) : Prop :=
  ∃ m, signal = .metric m ∧ m.entry ∈ es ∧ 0 ≤ m.value

theorem filed_of_entry {es : List Entry} {m : Metric} (i : Nat) (hEntry : es[i]? = some m.entry)
    (hValue : 0 ≤ m.value) : Filed es m.intoSignal :=
  ⟨m, rfl, List.mem_of_getElem? hEntry, hValue⟩

section Says

theorem filed_host (sys : Sysinfo) {signal : Signal} (h : signal ∈ (HostCollector.collect sys).1) :
    Filed Entry.ofHost signal := by
  simp only [HostCollector.collect, List.mem_append, List.mem_map, List.mem_cons, List.not_mem_nil,
    or_false, List.mem_ite_nil_right] at h
  rcases h with (((rfl | ⟨entry, -, rfl⟩) | ⟨-, rfl⟩) | rfl) | ⟨-, rfl⟩
  · exact filed_of_entry 0 rfl (percent_nonneg _)
  · exact filed_of_entry 1 rfl (Nat.cast_nonneg _)
  · exact filed_of_entry 2 rfl (div_nonneg (Nat.cast_nonneg _) (Nat.cast_nonneg _))
  · exact filed_of_entry 3 rfl (Nat.cast_nonneg _)
  · exact filed_of_entry 4 rfl (div_nonneg (Nat.cast_nonneg _) (Nat.cast_nonneg _))

theorem filed_self {c : SelfCollector} {sys : Sysinfo} {signal : Signal}
    (h : signal ∈ (c.collect sys).1) : Filed (Entry.ofProcess ["process.executable.name"]) signal := by
  unfold SelfCollector.collect at h
  split at h
  · cases h
  · simp only [processSignals, List.mem_cons, List.not_mem_nil, or_false] at h
    rcases h with rfl | rfl | rfl
    · exact filed_of_entry 0 rfl (percent_nonneg _)
    · exact filed_of_entry 1 rfl (Nat.cast_nonneg _)
    · exact filed_of_entry 2 rfl (Nat.cast_nonneg _)

theorem filed_process {c : ProcessCollector} {sys : Sysinfo} {signal : Signal}
    (h : signal ∈ (c.collect sys).1) :
    Filed (Entry.ofProcess ["process.executable.name", "process.pid"]) signal := by
  obtain ⟨⟨pid, stat⟩, -, h⟩ := List.mem_flatMap.mp h
  dsimp only at h
  split_ifs at h
  · cases h
  · simp only [processSignals, List.mem_cons, List.not_mem_nil, or_false] at h
    rcases h with rfl | rfl | rfl
    · exact filed_of_entry 0 rfl (percent_nonneg _)
    · exact filed_of_entry 1 rfl (Nat.cast_nonneg _)
    · exact filed_of_entry 2 rfl (Nat.cast_nonneg _)

theorem filed_probe {c : EndpointProbeCollector} {connect : Nat → ProbeTarget → Attempt}
    {signal : Signal} (h : signal ∈ (c.collect connect).1) : Filed Entry.ofProbe signal := by
  obtain ⟨⟨target, i⟩, -, h⟩ := List.mem_flatMap.mp h
  simp only [EndpointProbeCollector.signals, List.mem_cons, List.not_mem_nil, or_false] at h
  rcases h with rfl | rfl
  · refine filed_of_entry 0 rfl ?_
    change (0 : ℚ) ≤ if (connect i target).up then 1 else 0
    split_ifs
    · exact zero_le_one
    · exact le_rfl
  · exact filed_of_entry 1 rfl (Attempt.seconds_nonneg _)

theorem filed_container {c : ContainerCollector} {fs : Fs} {signal : Signal}
    (h : signal ∈ (c.collect fs).1) : Filed Entry.ofContainer signal := by
  rw [ContainerCollector.signals_collect, List.mem_append] at h
  obtain hLevel | hTotal := h
  · unfold ContainerCollector.levels at hLevel
    split at hLevel
    · cases hLevel
    · simp only [ContainerCollector.memory, ContainerCollector.memoryMax, List.mem_append,
        List.mem_singleton] at hLevel
      obtain rfl | hMax := hLevel
      · exact filed_of_entry 0 rfl (Nat.cast_nonneg _)
      · split at hMax
        · cases hMax
        · rw [List.mem_singleton.mp hMax]
          exact filed_of_entry 1 rfl (Nat.cast_nonneg _)
  · obtain ⟨total, -, hRead⟩ := List.mem_filterMap.mp hTotal
    obtain ⟨n, -, rfl⟩ := Option.map_eq_some_iff.mp hRead
    have hNonneg : 0 ≤ asF64 n := Nat.cast_nonneg _
    cases total with
    | oomKill => exact filed_of_entry 2 rfl hNonneg
    | usageUsec => exact filed_of_entry 3 rfl (div_nonneg hNonneg (Nat.ofNat_nonneg _))
    | throttledUsec => exact filed_of_entry 4 rfl (div_nonneg hNonneg (Nat.ofNat_nonneg _))
    | rbytes | wbytes => exact filed_of_entry 5 rfl hNonneg

theorem filed_discovery {workspaces scans : Nat} {signal : Signal}
    (h : signal ∈ (DiscoveryStats.collect workspaces scans).1) : Filed Entry.ofDiscovery signal := by
  simp only [DiscoveryStats.collect, List.mem_cons, List.not_mem_nil, or_false] at h
  rcases h with rfl | rfl
  · exact filed_of_entry 0 rfl (Nat.cast_nonneg _)
  · exact filed_of_entry 1 rfl (Nat.cast_nonneg _)

theorem filed_session {c : SessionCollector} {t : SessionTotals} {signal : Signal}
    (h : signal ∈ c.signals t ∨ signal ∈ c.retire) : Filed Entry.ofSession signal := by
  simp only [SessionCollector.signals, SessionCollector.retire, List.mem_append, List.mem_map,
    List.mem_cons, List.not_mem_nil, or_false, List.map_cons, List.map_nil] at h
  rcases h with (⟨e, -, rfl⟩ | rfl | rfl | rfl) | rfl | rfl | rfl
  · exact filed_of_entry 0 rfl (Nat.cast_nonneg _)
  · exact filed_of_entry 1 rfl (Nat.cast_nonneg _)
  · exact filed_of_entry 2 rfl (Nat.cast_nonneg _)
  · exact filed_of_entry 3 rfl (Nat.cast_nonneg _)
  · exact filed_of_entry 2 rfl le_rfl
  · exact filed_of_entry 1 rfl le_rfl
  · exact filed_of_entry 3 rfl le_rfl

theorem filed_learning {c : LearningCollector} {out : Counts} {signal : Signal}
    (h : signal ∈ c.signals out ∨ signal ∈ c.retire) : Filed Entry.ofLearning signal := by
  simp only [LearningCollector.signals, LearningCollector.retire, List.mem_append, List.mem_map,
    List.mem_cons, List.not_mem_nil, or_false, List.map_cons, List.map_nil] at h
  rcases h with (((rfl | rfl | rfl | rfl | rfl) | rfl) | ⟨name, -, rfl⟩) |
    rfl | rfl | rfl | rfl | rfl | rfl
  · exact filed_of_entry 0 rfl (Nat.cast_nonneg _)
  · exact filed_of_entry 1 rfl (Nat.cast_nonneg _)
  · exact filed_of_entry 2 rfl (Nat.cast_nonneg _)
  · exact filed_of_entry 3 rfl (Nat.cast_nonneg _)
  · exact filed_of_entry 4 rfl (Nat.cast_nonneg _)
  · exact filed_of_entry 5 rfl (Nat.cast_nonneg _)
  · exact filed_of_entry 7 rfl zero_le_one
  · exact filed_of_entry 0 rfl le_rfl
  · exact filed_of_entry 1 rfl le_rfl
  · exact filed_of_entry 6 rfl le_rfl
  · exact filed_of_entry 2 rfl le_rfl
  · exact filed_of_entry 3 rfl le_rfl
  · exact filed_of_entry 4 rfl le_rfl

namespace SignalSource

theorem filed_of_says {s : SignalSource} {signal : Signal} (h : s.Says signal) :
    Filed s.entries signal := by
  obtain ⟨world, hCollect⟩ | hRetire := h
  · cases s with
    | host c => exact filed_host world.sys hCollect
    | self c => exact filed_self hCollect
    | process c => exact filed_process hCollect
    | endpointProbe c => exact filed_probe hCollect
    | container c => exact filed_container hCollect
    | discovery c => exact filed_discovery hCollect
    | session c =>
      dsimp only [collect] at hCollect
      rcases SessionCollector.collect_cases world.fromStr world.fs c with
        ⟨-, e, hResult⟩ | ⟨-, hResult⟩ <;> rw [hResult] at hCollect
      · cases hCollect
      · exact filed_session (.inl hCollect)
    | learning c => exact filed_learning (.inl hCollect)
  · cases s with
    | session c => exact filed_session (.inr hRetire) (t := ⟨∅, 0, 0, 0⟩)
    | learning c =>
      have hEither : signal ∈ c.signals default ∨ signal ∈ c.retire := .inr hRetire
      exact filed_learning hEither
    | _ => cases hRetire

end SignalSource

end Says

/-- The metric behind a sink of the layer. -/
def Metric.stamp (layer : Layer) (m : Metric) : Metric :=
  { m with
    attributes :=
      if m.attributes.any fun kv => kv.1 = layerAttr then m.attributes
      else m.attributes ++ [(layerAttr, .str layer.asStr)] }

theorem stampLayer_intoSignal (layer : Layer) (m : Metric) :
    stampLayer layer m.intoSignal = (m.stamp layer).intoSignal := rfl

theorem Metric.carries_iff (m : Metric) :
    (m.attributes.any fun kv => kv.1 = layerAttr) ↔ layerAttr ∈ m.entry.keys := by
  simp [entry]

theorem Metric.entry_stamp (layer : Layer) (m : Metric) : (m.stamp layer).entry = m.entry.stamped := by
  unfold Entry.stamped stamp
  by_cases hCarries : layerAttr ∈ m.entry.keys
  · rw [if_pos hCarries, if_pos (m.carries_iff.mpr hCarries)]
  · rw [if_neg hCarries, if_neg (mt m.carries_iff.mp hCarries)]
    simp [entry]

section Streams

variable {m m' : Metric} {layer layer' : Layer}

/-- A metric behind a sink, which the catalogue knows. -/
def Known (m : Metric) : Prop := (∃ e ∈ Entry.catalogue.flatten, m.entry = e.stamped) ∧ 0 ≤ m.value

theorem keys_toKeyValues (m : Metric) : (toKeyValues m.attributes).map KeyValue.key = m.entry.keys := by
  simp [toKeyValues, Metric.entry, Function.comp_def]

theorem AttrValue.toAny_injective {v v' : AttrValue} (h : v.toAny = v'.toAny) : v = v' := by
  cases v <;> cases v' <;> simp_all [AttrValue.toAny]

theorem toKeyValues_injective {attrs attrs' : Attributes} (h : toKeyValues attrs = toKeyValues attrs') :
    attrs = attrs' := by
  refine List.map_injective_iff.mpr ?_ h
  rintro ⟨k, v⟩ ⟨k', v'⟩ hEq
  obtain ⟨rfl, hValue⟩ := KeyValue.mk.inj hEq
  rw [AttrValue.toAny_injective hValue]

/-- With different keys and in the same order of keys, a permutation moves nothing. -/
theorem eq_of_perm_of_keys {l l' : List KeyValue} (hPerm : l.Perm l')
    (hKeys : l.map KeyValue.key = l'.map KeyValue.key) (hNodup : (l.map KeyValue.key).Nodup) :
    l = l' := by
  induction l generalizing l' with
  | nil => exact hPerm.nil_eq
  | cons a l ih =>
    cases l' with
    | nil => exact absurd hPerm.length_eq (by simp)
    | cons b l' =>
      rw [List.map_cons, List.map_cons, List.cons.injEq] at hKeys
      rw [List.map_cons, List.nodup_cons] at hNodup
      have hHead : a = b := by
        obtain hEq | hLater := List.mem_cons.mp (hPerm.subset List.mem_cons_self)
        · exact hEq
        · exact absurd (hKeys.2 ▸ List.mem_map_of_mem hLater) hNodup.1
      subst hHead
      rw [ih hPerm.cons_inv hKeys.2 hNodup.2]

theorem Known.name_lower (h : Known m) : m.name.toList.map Char.toLower = m.name.toList := by
  obtain ⟨⟨e, he, hEntry⟩, -⟩ := h
  have hName : m.name = e.name := (congrArg Entry.name hEntry).trans e.name_stamped
  rw [hName]
  exact Entry.name_lower e he

theorem Known.agree (h : Known m) (h' : Known m') (hName : m.name = m'.name) :
    m.kind = m'.kind ∧
      (m.entry.keys = m'.entry.keys ∨ m.attributes.length ≠ m'.attributes.length) := by
  obtain ⟨⟨e, he, hEntry⟩, -⟩ := h
  obtain ⟨⟨e', he', hEntry'⟩, -⟩ := h'
  have hOf {m : Metric} {e : Entry} (hEntry : m.entry = e.stamped) : m.name = e.name ∧ m.kind = e.kind :=
    ⟨(congrArg Entry.name hEntry).trans e.name_stamped,
      (congrArg Entry.kind hEntry).trans e.kind_stamped⟩
  rw [(hOf hEntry).1, (hOf hEntry').1] at hName
  obtain ⟨hKind, hKeys⟩ := Entry.agree_of_name e he e' he' hName
  refine ⟨(hOf hEntry).2.trans (hKind.trans (hOf hEntry').2.symm), ?_⟩
  have hLength (m : Metric) : m.attributes.length = m.entry.keys.length := (List.length_map _).symm
  rw [hLength, hLength, hEntry, hEntry']
  exact hKeys

/-- The SDK keeps apart what the catalogue keeps apart. -/
theorem Known.separate (h : Known m) (h' : Known m') : Separate m m' := by
  rintro -
  by_cases hSeries : m'.series = m.series
  · exact .inl ⟨hSeries, h'.2⟩
  · refine .inr ⟨hSeries, ?_⟩
    by_cases hName : m'.name = m.name
    · right
      have hNodup {m : Metric} (h : Known m) : m.entry.keys.Nodup := by
        obtain ⟨⟨e, he, hEntry⟩, -⟩ := h
        rw [hEntry]
        exact Entry.keys_nodup e he
      refine ⟨keys_toKeyValues m' ▸ hNodup h', keys_toKeyValues m ▸ hNodup h, fun hPerm => ?_⟩
      obtain hKeys | hLength := (h'.agree h hName).2
      · have hSame := eq_of_perm_of_keys hPerm (by rw [keys_toKeyValues, keys_toKeyValues, hKeys])
          (keys_toKeyValues m' ▸ hNodup h')
        exact hSeries (Prod.ext hName (toKeyValues_injective hSame))
      · apply hLength
        simpa [toKeyValues] using hPerm.length_eq
    · left
      rw [h.name_lower, h'.name_lower]
      exact fun hList => hName (String.ext hList)

theorem known_of_says {s : SignalSource} (h : s.Says m.intoSignal) : Known (m.stamp layer) := by
  obtain ⟨m', hMetric, hEntry, hValue⟩ := SignalSource.filed_of_says h
  obtain rfl := Signal.metric.inj hMetric
  refine ⟨⟨m.entry, ?_, m.entry_stamp layer⟩, hValue⟩
  exact List.mem_flatten.mpr ⟨s.entries, s.entries_mem_catalogue, hEntry⟩

/-- Behind the sinks two metrics are told apart as before, unless they bring layers of their own. -/
theorem series_of_stamp (h : layerAttr ∉ m.entry.keys) (h' : layerAttr ∉ m'.entry.keys)
    (hSeries : (m.stamp layer).series = (m'.stamp layer').series) : m.series = m'.series := by
  obtain ⟨hName, hAttributes⟩ := Prod.mk.inj hSeries
  simp only [Metric.stamp, mt m.carries_iff.mp h, mt m'.carries_iff.mp h'] at hAttributes
  exact Prod.ext hName (List.append_inj_left' hAttributes rfl)

end Streams

end HarnessSphere
