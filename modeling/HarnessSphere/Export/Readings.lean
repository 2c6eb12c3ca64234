import HarnessSphere.Collectors.Container
import HarnessSphere.Export.Streams
import HarnessSphere.Runtime.Task
import Mathlib.Algebra.Order.BigOperators.Group.List

/-! # What becomes of a cgroup's totals at the exporter

The collector emits absolute totals as counters, and a counter of the exporter adds up what it gets.
-/

namespace HarnessSphere

namespace ContainerCollector

/-- What the sink of the source sends on at these ticks. -/
def emitted (c : ContainerCollector) (ticks : List Fs) : List Signal :=
  ticks.flatMap fun fs => (c.collect fs).1.map (stampLayer c.descriptor.layer)

namespace Total

def readings (total : Total) (c : ContainerCollector) (ticks : List Fs) : List UInt64 :=
  ticks.filterMap fun fs => total.reading fs c

/-- The metric as it reaches the exporter. -/
def exported (total : Total) (c : ContainerCollector) (n : UInt64) : Metric :=
  { total.metric c n with
    attributes := total.attributes c ++ [(layerAttr, .str c.descriptor.layer.asStr)] }

variable {c : ContainerCollector}

theorem stampLayer_metric (total : Total) (n : UInt64) :
    stampLayer c.descriptor.layer (total.metric c n).intoSignal = .metric (total.exported c n) := by
  cases total <;> rfl

theorem value_nonneg (total : Total) (n : UInt64) : 0 ≤ total.value n := by
  have hCast : 0 ≤ asF64 n := Nat.cast_nonneg _
  cases total with
  | oomKill | rbytes | wbytes => exact hCast
  | usageUsec | throttledUsec => exact div_nonneg hCast (Nat.ofNat_nonneg _)

theorem value_eq_zero_iff (total : Total) (n : UInt64) : total.value n = 0 ↔ n = 0 := by
  have hCast : asF64 n = 0 ↔ n = 0 := by
    rw [asF64, Nat.cast_eq_zero, ← UInt64.toNat_inj]
    rfl
  cases total <;> simp [value, hCast]

theorem series_exported_iff (total total' : Total) (n n' : UInt64) :
    (total'.exported c n').series = (total.exported c n).series ↔ total' = total := by
  cases total <;> cases total' <;>
    simp [exported, metric, name, attributes, Metric.series]

theorem nodup_keys (total : Total) (n : UInt64) :
    ((toKeyValues (total.exported c n).attributes).map KeyValue.key).Nodup := by
  cases total <;> simp [exported, attributes, toKeyValues, layerAttr]

/-- The two directions of the disk are two streams of one instrument. -/
theorem not_perm_directions (n n' : UInt64) :
    ¬ (toKeyValues (rbytes.exported c n).attributes).Perm
      (toKeyValues (wbytes.exported c n').attributes) := by
  intro h
  have hRead : (⟨"disk.io.direction", .string "read"⟩ : KeyValue) ∈
      toKeyValues (wbytes.exported c n').attributes :=
    h.subset (by simp [exported, attributes, toKeyValues, AttrValue.toAny])
  simp [exported, attributes, toKeyValues, AttrValue.toAny, layerAttr] at hRead

theorem separate_exported (total total' : Total) (n n' : UInt64) :
    Separate (total.exported c n) (total'.exported c n') := by
  rintro -
  by_cases hTotal : total' = total
  · exact .inl ⟨(series_exported_iff ..).mpr hTotal, total'.value_nonneg n'⟩
  · refine .inr ⟨fun h => hTotal ((series_exported_iff ..).mp h), ?_⟩
    by_cases hName : total'.name = total.name
    · refine .inr ⟨nodup_keys .., nodup_keys .., ?_⟩
      cases total <;> cases total' <;> simp [name] at hName hTotal
      · exact fun h => not_perm_directions n n' h.symm
      · exact not_perm_directions n' n
    · left
      change total'.name.toList.map Char.toLower ≠ total.name.toList.map Char.toLower
      cases total <;> cases total' <;> first | exact absurd rfl hName | decide

end Total

open Total

variable {c : ContainerCollector}

theorem kind_levels {fs : Fs} {signal : Signal} (h : signal ∈ c.levels fs) :
    ∃ m, signal = .metric m ∧ Aggregation.ofKind m.kind = some .lastValue := by
  rw [levels] at h
  cases hUsed : (c.read fs "memory.current").bind parseU64 with
  | none => simp [hUsed] at h
  | some used =>
    simp only [hUsed, List.mem_append] at h
    obtain hUsage | hMax := h
    · exact ⟨_, List.mem_singleton.mp hUsage, rfl⟩
    · rw [memoryMax] at hMax
      cases hLimit : (c.read fs "memory.max").bind parseMemMax with
      | none => simp [hLimit] at hMax
      | some limit =>
        rw [hLimit] at hMax
        exact ⟨_, List.mem_singleton.mp hMax, rfl⟩

theorem mem_emitted {ticks : List Fs} {signal : Signal} (h : signal ∈ c.emitted ticks) :
    ∃ m, signal = .metric m ∧
      (Aggregation.ofKind m.kind = some .lastValue ∨ ∃ total n, m = Total.exported total c n) := by
  obtain ⟨fs, -, hSignal⟩ := List.mem_flatMap.mp h
  obtain ⟨signal, hCollect, rfl⟩ := List.mem_map.mp hSignal
  rw [signals_collect, List.mem_append] at hCollect
  obtain hLevel | hTotal := hCollect
  · obtain ⟨m, rfl, hKind⟩ := kind_levels hLevel
    exact ⟨_, rfl, .inl hKind⟩
  · obtain ⟨total, -, hRead⟩ := List.mem_filterMap.mp hTotal
    obtain ⟨n, -, rfl⟩ := Option.map_eq_some_iff.mp hRead
    exact ⟨_, stampLayer_metric total n, .inr ⟨total, n, rfl⟩⟩

theorem separate_emitted (ticks : List Fs) (total : Total) (n : UInt64) (m : Metric)
    (h : .metric m ∈ c.emitted ticks) : Separate (total.exported c n) m := by
  obtain ⟨m', hMetric, hKind | ⟨total', n', rfl⟩⟩ := mem_emitted h
  · obtain rfl := Signal.metric.inj hMetric
    intro hSame
    exact absurd (hKind.symm.trans hSame) (by simp [exported, metric, Aggregation.ofKind])
  · obtain rfl := Signal.metric.inj hMetric
    exact separate_exported total total' n n'

theorem written_levels (fs : Fs) (total : Total) (n : UInt64) :
    written (total.exported c n) ((c.levels fs).map (stampLayer c.descriptor.layer)) = [] := by
  rw [written, List.filterMap_eq_nil_iff]
  intro signal hSignal
  obtain ⟨signal, hLevel, rfl⟩ := List.mem_map.mp hSignal
  obtain ⟨m, rfl, hKind⟩ := kind_levels hLevel
  refine if_neg fun hSame => ?_
  exact absurd (hKind.symm.trans hSame.1) (by simp [exported, metric, Aggregation.ofKind])

theorem written_exported (total total' : Total) (n n' : UInt64) :
    written (total.exported c n) [.metric (total'.exported c n')] =
      if total' = total then [total'.value n'] else [] := by
  by_cases hTotal : total' = total
  · have hSeries := (series_exported_iff (c := c) total total' n n').mpr hTotal
    subst hTotal
    simp only [written, List.filterMap_cons, hSeries, List.filterMap_nil, if_true]
    rfl
  · have hSeries := mt (series_exported_iff (c := c) total total' n n').mp hTotal
    simp [written, hSeries, hTotal]

theorem written_counted (fs : Fs) (total : Total) (n : UInt64) :
    written (total.exported c n) ((c.counted fs Total.all).map (stampLayer c.descriptor.layer)) =
      ((total.reading fs c).map total.value).toList := by
  have hAll (totals : List Total) :
      written (total.exported c n) ((c.counted fs totals).map (stampLayer c.descriptor.layer)) =
        totals.flatMap fun total' =>
          if total' = total then ((total.reading fs c).map total.value).toList else [] := by
    induction totals with
    | nil => rfl
    | cons total' totals ih =>
      rw [counted, List.filterMap_cons, List.flatMap_cons, ← ih]
      cases hRead : total'.reading fs c with
      | none =>
        by_cases hTotal : total' = total
        · subst hTotal
          simp [hRead, counted]
        · simp [hTotal, counted]
      | some n' =>
        rw [Option.map_some, List.map_cons, stampLayer_metric]
        rw [← List.singleton_append, written_append, written_exported]
        by_cases hTotal : total' = total
        · subst hTotal
          simp [hRead, counted]
        · simp [hTotal, counted]
  rw [hAll]
  cases total <;> simp [Total.all]

theorem written_emitted (ticks : List Fs) (total : Total) (n : UInt64) :
    written (total.exported c n) (c.emitted ticks) = (total.readings c ticks).map total.value := by
  induction ticks with
  | nil => rfl
  | cons fs ticks ih =>
    rw [emitted, List.flatMap_cons, written_append, signals_collect, List.map_append,
      written_append, written_levels, written_counted, List.nil_append]
    refine (congrArg _ ih).trans ?_
    cases hRead : total.reading fs c <;> simp [readings, hRead]

/-- The exporter's counter holds the sum of all readings. -/
theorem held_emitted {σ : Type*} {sdk : Sdk σ} (hSdk : sdk.Documented) (clients : Clients)
    {ticks : List Fs} {batches : List (List Signal)} (hBatches : batches.flatten = c.emitted ticks)
    (total : Total) (n : UInt64) (hRead : total.readings c ticks ≠ []) :
    ((OtlpExporter.new sdk).exportAll sdk clients batches).held sdk (total.exported c n) =
      some ((total.readings c ticks).map total.value).sum := by
  have hHeld := OtlpExporter.held_exportAll hSdk clients (m := total.exported c n) rfl batches
    (hBatches ▸ separate_emitted ticks total n)
  rw [hBatches, written_emitted] at hHeld
  obtain ⟨v, hv⟩ := Option.isSome_iff_exists.mp
    (Aggregation.result_isSome .sum (mt List.map_eq_nil_iff.mp hRead) :
      (Aggregation.sum.result ((total.readings c ticks).map total.value)).isSome)
  rw [hHeld, hv, ← Aggregation.sum_result, hv]
  rfl

/-- Once the signals of the first ticks are exported, in whatever batches, the instrument of each
total holds the latest reading, after any number of ticks. -/
def HoldsLatest {σ : Type*} (sdk : Sdk σ) (clients : Clients) (c : ContainerCollector)
    (ticks : List Fs) : Prop :=
  ∀ n, ∀ batches : List (List Signal), batches.flatten = c.emitted (ticks.take n) →
    ∀ total : Total, ∀ v, (total.readings c (ticks.take n)).getLast? = some v →
      ((OtlpExporter.new sdk).exportAll sdk clients batches).held sdk (total.exported c v) =
        some (total.value v)

theorem sum_values_eq_iff (total : Total) (front : List UInt64) (v : UInt64) :
    ((front ++ [v]).map total.value).sum = total.value v ↔ ∀ n ∈ front, n = 0 := by
  have hNonneg : ∀ x ∈ front.map total.value, 0 ≤ x := by
    intro x hx
    obtain ⟨n, -, rfl⟩ := List.mem_map.mp hx
    exact total.value_nonneg n
  rw [List.map_append, List.sum_append, List.map_singleton, List.sum_singleton, add_eq_right]
  constructor
  · intro hSum n hn
    exact (total.value_eq_zero_iff n).mp
      (List.all_zero_of_le_zero_le_of_sum_eq_zero hNonneg hSum (List.mem_map_of_mem hn))
  · intro h
    apply List.sum_eq_zero
    intro x hx
    obtain ⟨n, hn, rfl⟩ := List.mem_map.mp hx
    exact (total.value_eq_zero_iff n).mpr (h n hn)

theorem readings_take (total : Total) (ticks : List Fs) (n : Nat) :
    total.readings c (ticks.take n) <+: total.readings c ticks :=
  (List.take_prefix n ticks).filterMap _

/-- The counters show the latest readings after every tick exactly if, for each total, all readings
before its latest one are zero. -/
theorem latest_reading_held_iff {σ : Type*} (sdk : Sdk σ) (hSdk : sdk.Documented)
    (clients : Clients) (c : ContainerCollector) (ticks : List Fs) :
    HoldsLatest sdk clients c ticks ↔
      ∀ total : Total, ∀ n ∈ (total.readings c ticks).dropLast, n = 0 := by
  constructor
  · intro h total
    obtain hNil | ⟨front, v, hSnoc⟩ := List.eq_nil_or_concat' (total.readings c ticks)
    · simp [hNil]
    · have hBatch : [c.emitted ticks].flatten = c.emitted ticks := by simp
      have hRead : total.readings c ticks ≠ [] := by simp [hSnoc]
      have hHeld := h ticks.length [c.emitted ticks] (by simp) total v (by simp [hSnoc])
      rw [held_emitted hSdk clients hBatch total v hRead, hSnoc, Option.some.injEq,
        sum_values_eq_iff] at hHeld
      rwa [hSnoc, List.dropLast_concat]
  · intro h n batches hBatches total v hLast
    obtain ⟨front, hFront⟩ := List.getLast?_eq_some_iff.mp hLast
    rw [held_emitted hSdk clients hBatches total v (by simp [hFront]), hFront,
      Option.some.injEq, sum_values_eq_iff]
    intro n' hn'
    obtain ⟨later, hLater⟩ := hFront ▸ readings_take (c := c) total ticks n
    apply h total n'
    rw [← hLater, List.append_assoc, List.dropLast_append_of_ne_nil (by simp)]
    exact List.mem_append_left _ hn'

section Sample

/-- Instruments that hold one value for each instrument and attribute list. -/
structure Streams where
  gauge : Instrument → List KeyValue → Option F64
  counter : Instrument → List KeyValue → Option F64

def sampleSdk : Sdk Streams where
  start := ⟨fun _ _ => none, fun _ _ => none⟩
  recordGauge i v attrs s :=
    { s with gauge := fun j attrs' => if j = i ∧ attrs' = attrs then some v else s.gauge j attrs' }
  addCounter i v attrs s :=
    if v < 0 then s
    else
      { s with
        counter := fun j attrs' =>
          if j = i ∧ attrs' = attrs then some ((s.counter j attrs').getD 0 + v)
          else s.counter j attrs' }
  recordHistogram _ _ _ s := s
  gauge := Streams.gauge
  counter := Streams.counter

theorem Apart.ne {i j : Instrument} {attrs attrs' : List KeyValue}
    (h : Apart i.name j.name attrs attrs') : ¬ (j = i ∧ attrs' = attrs) := by
  rintro ⟨rfl, rfl⟩
  obtain hName | ⟨-, -, hPerm⟩ := h
  · exact hName rfl
  · exact hPerm (.refl _)

theorem sampleSdk_documented : sampleSdk.Documented where
  start_gauge _ _ := rfl
  start_counter _ _ := rfl
  gauge_recordGauge s i v attrs := by simp [sampleSdk]
  gauge_recordGauge_apart s i v attrs j attrs' h := by
    simp [sampleSdk, Apart.ne h]
  gauge_addCounter s i v attrs := by
    by_cases hNeg : v < 0 <;> simp [sampleSdk, hNeg]
  gauge_recordHistogram _ _ _ _ := rfl
  counter_addCounter s i v attrs h := by simp [sampleSdk, not_lt.mpr h]
  counter_addCounter_apart s i v attrs j attrs' h := by
    by_cases hNeg : v < 0
    · simp [sampleSdk, hNeg]
    · simp [sampleSdk, hNeg, Apart.ne h]
  counter_recordGauge _ _ _ _ := rfl
  counter_recordHistogram _ _ _ _ := rfl

def sampleClients : Clients := fun _ => .ok ()

def sampleCgroup : Path := ["", "cgroup", "agent.scope"].map OsString.ofStr

def sampleContainer : ContainerCollector := .new sampleCgroup "agent-1" 10

def cgroupFs (cpuStat : String) : Fs :=
  Disk.fs ⟨[sampleCgroup], [(sampleCgroup.join "memory.current", OsString.ofStr "2048\n"),
    (sampleCgroup.join "cpu.stat", OsString.ofStr cpuStat)]⟩

/-- A container that had used no time at the first of two ticks. -/
theorem a_container_at_its_start_is_held :
    HoldsLatest sampleSdk sampleClients sampleContainer
      [cgroupFs "usage_usec 0\n", cgroupFs "usage_usec 3000000\n"] := by
  refine (latest_reading_held_iff sampleSdk sampleSdk_documented sampleClients sampleContainer
    _).mpr ?_
  intro total n hn
  have hEarlier : (total.readings sampleContainer
      [cgroupFs "usage_usec 0\n", cgroupFs "usage_usec 3000000\n"]).dropLast ∈ [[], [0]] := by
    cases total <;> decide
  rw [List.mem_pair] at hEarlier
  obtain hNone | hZero := hEarlier
  · rw [hNone] at hn
    cases hn
  · rw [hZero] at hn
    exact List.mem_singleton.mp hn

def idleSecond : List Fs := [cgroupFs "usage_usec 1000000\n", cgroupFs "usage_usec 1000000\n"]

/-- A container that used one second before the first tick and none afterwards. -/
theorem an_idle_second_counts_twice :
    (∀ total : Total, (total.readings sampleContainer idleSecond).Pairwise (· ≤ ·)) ∧
    ¬ HoldsLatest sampleSdk sampleClients sampleContainer idleSecond := by
  constructor
  · intro total
    cases total <;> decide
  · intro h
    have hReadings : usageUsec.readings sampleContainer idleSecond = [1000000, 1000000] := by decide
    have hBatch : [sampleContainer.emitted idleSecond].flatten =
        sampleContainer.emitted idleSecond := by
      simp
    have hRead : usageUsec.readings sampleContainer idleSecond ≠ [] := by simp [hReadings]
    have hHeld := h idleSecond.length [sampleContainer.emitted idleSecond]
      (by rw [List.take_length, hBatch]) usageUsec 1000000
      (by rw [List.take_length, hReadings]; rfl)
    rw [held_emitted sampleSdk_documented sampleClients hBatch usageUsec 1000000 hRead, hReadings,
      Option.some.injEq] at hHeld
    have hZero := (sum_values_eq_iff usageUsec [1000000] 1000000).mp hHeld 1000000 (by simp)
    exact absurd hZero (by decide)

end Sample

end ContainerCollector

end HarnessSphere
