import HarnessSphere.Export.Otlp

/-! # What the instruments hold

An instrument holds for a stream what its aggregation makes of the values written to the stream, in
whatever batches they came and whatever else was exported between them.
-/

namespace HarnessSphere

inductive Aggregation where
  | lastValue | sum
  deriving DecidableEq, Repr

namespace Aggregation

def ofKind : MetricKind → Option Aggregation
  | .gauge | .upDownCounter => some lastValue
  | .counter => some sum
  | .histogram => none

def combine : Aggregation → Option F64 → F64 → F64
  | lastValue, _, v => v
  | sum, old, v => old.getD 0 + v

def result (agg : Aggregation) (values : List F64) : Option F64 :=
  values.foldl (fun old v => some (agg.combine old v)) none

variable (agg : Aggregation)

@[simp] theorem result_nil : agg.result [] = none := rfl

theorem result_concat (values : List F64) (v : F64) :
    agg.result (values ++ [v]) = some (agg.combine (agg.result values) v) := by
  simp [result]

theorem lastValue_result (values : List F64) : lastValue.result values = values.getLast? := by
  induction values using List.reverseRecOn with
  | nil => rfl
  | append_singleton values v _ => simp [result_concat, combine]

theorem sum_result (values : List F64) : (sum.result values).getD 0 = values.sum := by
  induction values using List.reverseRecOn with
  | nil => rfl
  | append_singleton values v ih => simp [result_concat, combine, ih]

theorem result_isSome {values : List F64} (h : values ≠ []) : (agg.result values).isSome := by
  obtain ⟨front, last, rfl⟩ := List.eq_nil_or_concat' values |>.resolve_left h
  simp [result_concat]

end Aggregation

/-- The values that a list of signals writes to the stream of a metric. -/
def written (m : Metric) (signals : List Signal) : List F64 :=
  signals.filterMap fun
    | .metric m' =>
      if Aggregation.ofKind m'.kind = Aggregation.ofKind m.kind ∧ m'.series = m.series then
        some m'.value
      else none
    | _ => none

theorem written_append (m : Metric) (xs ys : List Signal) :
    written m (xs ++ ys) = written m xs ++ written m ys := List.filterMap_append

/-- A metric goes to another instrument, or to the very stream of `m` with a value that a counter
takes, or to a stream that the SDK keeps apart from it. -/
def Separate (m m' : Metric) : Prop :=
  Aggregation.ofKind m'.kind = Aggregation.ofKind m.kind →
    (m'.series = m.series ∧ 0 ≤ m'.value) ∨
      m'.series ≠ m.series ∧
        Apart m'.name m.name (toKeyValues m'.attributes) (toKeyValues m.attributes)

namespace OtlpExporter

variable {σ : Type*} (sdk : Sdk σ) (clients : Clients)

def accept (e : OtlpExporter σ) : Signal → OtlpExporter σ
  | .metric m => e.recordMetric sdk m
  | _ => e

def exportAll (e : OtlpExporter σ) (batches : List (List Signal)) : OtlpExporter σ :=
  batches.foldl (fun e batch => (e.exportBatch sdk clients batch).1) e

theorem exporter_put (s : Sorting σ) (signal : Signal) :
    (s.put sdk signal).exporter = s.exporter.accept sdk signal := by
  cases signal <;> rfl

theorem exportBatch_exporter (e : OtlpExporter σ) (batch : List Signal) :
    (e.exportBatch sdk clients batch).1 = batch.foldl (accept sdk) e := by
  have hStep (s : Sorting σ) (signal : Signal) :
      s.exporter.accept sdk signal = (s.put sdk signal).exporter := (exporter_put sdk s signal).symm
  exact (List.foldl_hom Sorting.exporter hStep).symm

/-- How the signals were cut into batches, and what the clients answered, does not matter. -/
theorem exportAll_eq (e : OtlpExporter σ) (batches : List (List Signal)) :
    e.exportAll sdk clients batches = batches.flatten.foldl (accept sdk) e := by
  induction batches generalizing e with
  | nil => rfl
  | cons batch batches ih =>
    rw [List.flatten_cons, List.foldl_append, ← exportBatch_exporter sdk clients e batch]
    exact ih _

def made (e : OtlpExporter σ) : Aggregation → Table String Instrument
  | .lastValue => e.gauges
  | .sum => e.counters

def reading (e : OtlpExporter σ) : Aggregation → Instrument → List KeyValue → Option F64
  | .lastValue => sdk.gauge e.provider
  | .sum => sdk.counter e.provider

theorem held_eq (e : OtlpExporter σ) {m : Metric} {agg : Aggregation}
    (hAgg : Aggregation.ofKind m.kind = some agg) :
    e.held sdk m =
      ((e.made agg).lookup m.name).bind fun i =>
        e.reading sdk agg i (toKeyValues m.attributes) := by
  rw [held]
  cases hKind : m.kind <;> simp only [hKind, Aggregation.ofKind] at hAgg <;> cases hAgg <;> rfl

variable {sdk}

/-- The instrument that an aggregation records a metric in, before and after the recording. -/
theorem made_recordMetric (e : OtlpExporter σ) {m : Metric} {agg : Aggregation}
    (hAgg : Aggregation.ofKind m.kind = some agg) :
    (e.recordMetric sdk m).made agg = (e.made agg).insert m.name (instrument (e.made agg) m) := by
  rw [recordMetric]
  cases hKind : m.kind <;> simp only [hKind, Aggregation.ofKind] at hAgg <;> cases hAgg <;> rfl

theorem made_recordMetric_other (e : OtlpExporter σ) {m : Metric} {agg : Aggregation}
    (hAgg : Aggregation.ofKind m.kind ≠ some agg) :
    (e.recordMetric sdk m).made agg = e.made agg := by
  rw [recordMetric]
  cases hKind : m.kind <;> cases agg <;> simp only [hKind, Aggregation.ofKind] at hAgg <;>
    first | rfl | exact absurd rfl hAgg

variable (hSdk : sdk.Documented)
include hSdk

theorem reading_recordMetric (e : OtlpExporter σ) {m : Metric} {agg : Aggregation}
    (hAgg : Aggregation.ofKind m.kind = some agg) (hNonneg : 0 ≤ m.value) :
    (e.recordMetric sdk m).reading sdk agg (instrument (e.made agg) m) (toKeyValues m.attributes) =
      some (agg.combine
        (e.reading sdk agg (instrument (e.made agg) m) (toKeyValues m.attributes)) m.value) := by
  rw [recordMetric]
  cases hKind : m.kind <;> simp only [hKind, Aggregation.ofKind] at hAgg <;> cases hAgg
  · exact hSdk.gauge_recordGauge ..
  · exact hSdk.counter_addCounter _ _ _ _ hNonneg
  · exact hSdk.gauge_recordGauge ..

theorem reading_recordMetric_apart (e : OtlpExporter σ) {m : Metric} {agg : Aggregation}
    (hAgg : Aggregation.ofKind m.kind = some agg) {i : Instrument} {attrs : List KeyValue}
    (hApart : Apart (instrument (e.made agg) m).name i.name (toKeyValues m.attributes) attrs) :
    (e.recordMetric sdk m).reading sdk agg i attrs = e.reading sdk agg i attrs := by
  rw [recordMetric]
  cases hKind : m.kind <;> simp only [hKind, Aggregation.ofKind] at hAgg <;> cases hAgg
  · exact hSdk.gauge_recordGauge_apart _ _ _ _ _ _ hApart
  · exact hSdk.counter_addCounter_apart _ _ _ _ _ _ hApart
  · exact hSdk.gauge_recordGauge_apart _ _ _ _ _ _ hApart

theorem reading_recordMetric_other (e : OtlpExporter σ) {m : Metric} {agg : Aggregation}
    (hAgg : Aggregation.ofKind m.kind ≠ some agg) :
    (e.recordMetric sdk m).reading sdk agg = e.reading sdk agg := by
  rw [recordMetric]
  cases hKind : m.kind <;> cases agg <;> simp only [hKind, Aggregation.ofKind] at hAgg <;>
    first
    | exact absurd rfl hAgg
    | exact hSdk.counter_recordGauge ..
    | exact hSdk.gauge_addCounter ..
    | exact hSdk.gauge_recordHistogram ..
    | exact hSdk.counter_recordHistogram ..

omit hSdk

/-- What is known of the stream of `m` once `values` have been written to it. -/
structure Holds (sdk : Sdk σ) (m : Metric) (agg : Aggregation) (values : List F64)
    (e : OtlpExporter σ) : Prop where
  named : ∀ name, ∀ i ∈ (e.made agg).lookup name, i.name = name
  reading : ∀ unit, e.reading sdk agg (instrument (e.made agg) { m with unit })
    (toKeyValues m.attributes) = agg.result values
  made : values ≠ [] → ((e.made agg).lookup m.name).isSome

theorem Holds.instrument_name {m : Metric} {agg : Aggregation} {values : List F64}
    {e : OtlpExporter σ} (h : Holds sdk m agg values e) (m' : Metric) :
    (instrument (e.made agg) m').name = m'.name := by
  rw [instrument]
  cases hLookup : (e.made agg).lookup m'.name with
  | none => rfl
  | some i => exact h.named _ i hLookup

theorem Holds.held {m : Metric} {agg : Aggregation} {values : List F64} {e : OtlpExporter σ}
    (hAgg : Aggregation.ofKind m.kind = some agg) (h : Holds sdk m agg values e) :
    e.held sdk m = agg.result values := by
  have hReading := h.reading m.unit
  rw [held_eq sdk e hAgg]
  cases hLookup : (e.made agg).lookup m.name with
  | none =>
    obtain rfl : values = [] := by
      by_contra hNe
      have hSome := h.made hNe
      rw [hLookup] at hSome
      exact Bool.false_ne_true hSome
    rfl
  | some i =>
    rw [instrument, hLookup] at hReading
    exact hReading

theorem holds_new (hSdk : sdk.Documented) (m : Metric) (agg : Aggregation) :
    Holds sdk m agg [] (new sdk) where
  named name i h := by cases agg <;> exact absurd h (by simp [OtlpExporter.made, new])
  reading unit := by
    cases agg
    · exact hSdk.start_gauge ..
    · exact hSdk.start_counter ..
  made h := absurd rfl h

theorem named_recordMetric {m m' : Metric} {agg : Aggregation} {values : List F64}
    {e : OtlpExporter σ} (h : Holds sdk m agg values e)
    (hAgg : Aggregation.ofKind m'.kind = some agg) :
    ∀ name, ∀ i ∈ ((e.recordMetric sdk m').made agg).lookup name, i.name = name := by
  intro name i hLookup
  rw [made_recordMetric e hAgg] at hLookup
  obtain rfl | hName := eq_or_ne name m'.name
  · rw [AList.lookup_insert, Option.mem_some_iff] at hLookup
    exact hLookup ▸ h.instrument_name m'
  · rw [AList.lookup_insert_ne hName] at hLookup
    exact h.named name i hLookup

theorem holds_same (hSdk : sdk.Documented) {m m' : Metric} {agg : Aggregation}
    {values : List F64} {e : OtlpExporter σ} (h : Holds sdk m agg values e)
    (hAgg : Aggregation.ofKind m'.kind = some agg) (hSeries : m'.series = m.series)
    (hNonneg : 0 ≤ m'.value) :
    Holds sdk m agg (values ++ [m'.value]) (e.recordMetric sdk m') where
  named := named_recordMetric h hAgg
  reading unit := by
    obtain ⟨hName, hAttrs⟩ := Prod.mk.inj hSeries
    have hInstrument : instrument ((e.recordMetric sdk m').made agg) { m with unit } =
        instrument (e.made agg) m' := by
      rw [made_recordMetric e hAgg, instrument, ← hName, AList.lookup_insert]
      rfl
    have hBefore : instrument (e.made agg) m' =
        instrument (e.made agg) { m with unit := m'.unit } := by
      rw [instrument, instrument, hName]
    rw [hInstrument, ← hAttrs, reading_recordMetric hSdk e hAgg hNonneg, hBefore, hAttrs,
      h.reading m'.unit, Aggregation.result_concat]
  made _ := by
    rw [made_recordMetric e hAgg, ← (Prod.mk.inj hSeries).1, AList.lookup_insert]
    rfl

theorem holds_apart (hSdk : sdk.Documented) {m m' : Metric} {agg : Aggregation}
    {values : List F64} {e : OtlpExporter σ} (h : Holds sdk m agg values e)
    (hAgg : Aggregation.ofKind m'.kind = some agg)
    (hApart : Apart m'.name m.name (toKeyValues m'.attributes) (toKeyValues m.attributes)) :
    Holds sdk m agg values (e.recordMetric sdk m') where
  named := named_recordMetric h hAgg
  reading unit := by
    have hFrame (u : Option String) :
        (e.recordMetric sdk m').reading sdk agg (instrument (e.made agg) { m with unit := u })
          (toKeyValues m.attributes) = agg.result values := by
      rw [reading_recordMetric_apart hSdk e hAgg, h.reading u]
      rw [h.instrument_name, h.instrument_name]
      exact hApart
    obtain hName | hName := eq_or_ne m.name m'.name
    · have hInstrument : instrument ((e.recordMetric sdk m').made agg) { m with unit } =
          instrument (e.made agg) { m with unit := m'.unit } := by
        rw [made_recordMetric e hAgg, instrument, instrument, instrument, hName,
          AList.lookup_insert]
        rfl
      rw [hInstrument]
      exact hFrame m'.unit
    · have hInstrument : instrument ((e.recordMetric sdk m').made agg) { m with unit } =
          instrument (e.made agg) { m with unit } := by
        rw [made_recordMetric e hAgg, instrument, AList.lookup_insert_ne hName]
        rfl
      rw [hInstrument]
      exact hFrame unit
  made hValues := by
    rw [made_recordMetric e hAgg]
    obtain hName | hName := eq_or_ne m.name m'.name
    · rw [hName, AList.lookup_insert]
      rfl
    · rw [AList.lookup_insert_ne hName]
      exact h.made hValues

theorem holds_other (hSdk : sdk.Documented) {m m' : Metric} {agg : Aggregation}
    {values : List F64} {e : OtlpExporter σ} (h : Holds sdk m agg values e)
    (hAgg : Aggregation.ofKind m'.kind ≠ some agg) :
    Holds sdk m agg values (e.recordMetric sdk m') where
  named := made_recordMetric_other e hAgg ▸ h.named
  reading unit := by
    rw [made_recordMetric_other e hAgg, reading_recordMetric_other hSdk e hAgg, h.reading]
  made := made_recordMetric_other e hAgg ▸ h.made

theorem holds_accept (hSdk : sdk.Documented) {m : Metric} {agg : Aggregation}
    (hAgg : Aggregation.ofKind m.kind = some agg) {values : List F64} {e : OtlpExporter σ}
    (h : Holds sdk m agg values e) {signal : Signal}
    (hSeparate : ∀ m', signal = .metric m' → Separate m m') :
    Holds sdk m agg (values ++ written m [signal]) (e.accept sdk signal) := by
  cases signal with
  | metric m' =>
    by_cases hKind : Aggregation.ofKind m'.kind = some agg
    · obtain ⟨hSeries, hNonneg⟩ | ⟨hSeries, hApart⟩ := hSeparate m' rfl (hKind.trans hAgg.symm)
      · have hWritten : written m [.metric m'] = [m'.value] := by
          simp [written, hKind, hAgg, hSeries]
        rw [hWritten]
        exact holds_same hSdk h hKind hSeries hNonneg
      · have hWritten : written m [.metric m'] = [] := by simp [written, hSeries]
        rw [hWritten, List.append_nil]
        exact holds_apart hSdk h hKind hApart
    · have hWritten : written m [.metric m'] = [] := by simp [written, hAgg, hKind]
      rw [hWritten, List.append_nil]
      exact holds_other hSdk h hKind
  | histogram p => simpa [written, accept] using h
  | log l => simpa [written, accept] using h
  | span s => simpa [written, accept] using h

/-- Of a stream that the other signals keep clear of, the exporter holds the aggregate of all that was
written to it. -/
theorem held_exportAll (hSdk : sdk.Documented) (clients : Clients) {m : Metric} {agg : Aggregation}
    (hAgg : Aggregation.ofKind m.kind = some agg) (batches : List (List Signal))
    (hSeparate : ∀ m', .metric m' ∈ batches.flatten → Separate m m') :
    ((new sdk).exportAll sdk clients batches).held sdk m =
      agg.result (written m batches.flatten) := by
  rw [exportAll_eq]
  generalize batches.flatten = signals at hSeparate
  apply Holds.held hAgg
  induction signals using List.reverseRecOn with
  | nil => exact holds_new hSdk m agg
  | append_singleton front signal ih =>
    have hFront := ih fun m' hm' => hSeparate m' (List.mem_append_left _ hm')
    rw [List.foldl_append, written, List.filterMap_append]
    apply holds_accept hSdk hAgg hFront
    rintro m' rfl
    exact hSeparate m' (by simp)

end OtlpExporter

end HarnessSphere
