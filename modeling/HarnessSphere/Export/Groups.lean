import Mathlib.Data.List.Perm.Basic
import HarnessSphere.Export.Readings

/-! # What becomes of a batch

Each signal of a batch goes one way. The records of a request are cut into groups by service: what a
group holds and what its resource says is told from the records of that service alone, in their order
in the batch, so that the order in which the maps are walked does not matter.
-/

namespace HarnessSphere

section Texts

variable (attrs : Attributes)

def NoText (key : String) : Prop := ∀ s, (key, .str s) ∉ attrs

/-- The first attribute under the key that holds a text. -/
def FirstText (key s : String) : Prop :=
  ∃ before later, attrs = before ++ (key, .str s) :: later ∧ NoText before key

def ServiceName (service : String) : Prop :=
  FirstText attrs "service.name" service ∨ (NoText attrs "service.name" ∧ service = "unknown")

variable {attrs}

theorem attrStr_eq_none_iff {key : String} : attrStr attrs key = none ↔ NoText attrs key := by
  rw [attrStr, List.findSome?_eq_none_iff, NoText]
  constructor
  · intro h s hs
    simpa using h _ hs
  · rintro h ⟨k, v⟩ hkv
    cases v with
    | str s =>
      have hKey : k ≠ key := fun hk => h s (hk ▸ hkv)
      simp [hKey]
    | _ => rfl

theorem attrStr_eq_some_iff {key s : String} : attrStr attrs key = some s ↔ FirstText attrs key s := by
  rw [attrStr, List.findSome?_eq_some_iff]
  have hFront (before : Attributes) :
      (∀ x ∈ before, attrStr [x] key = none) ↔ NoText before key := by
    simp only [attrStr_eq_none_iff, NoText, List.mem_singleton]
    exact ⟨fun h s hs => h _ hs s rfl, fun h x hx s hs => h s (hs ▸ hx)⟩
  constructor
  · rintro ⟨before, ⟨k, v⟩, later, rfl, hText, hNone⟩
    cases v with
    | str s' =>
      obtain ⟨rfl, rfl⟩ : k = key ∧ s' = s := by simpa using hText
      refine ⟨before, later, rfl, (hFront before).mp fun x hx => ?_⟩
      simpa [attrStr] using hNone x hx
    | _ => cases hText
  · rintro ⟨before, later, rfl, hNone⟩
    refine ⟨before, _, later, rfl, by simp, fun x hx => ?_⟩
    simpa [attrStr] using (hFront before).mpr hNone x hx

theorem serviceName_iff {α : Type*} {attributes : α → Attributes} {r : α} {service : String} :
    ServiceName (attributes r) service ↔ serviceOf attributes r = service := by
  rw [ServiceName, serviceOf, ← attrStr_eq_some_iff, ← attrStr_eq_none_iff]
  cases attrStr (attributes r) "service.name" <;> simp [eq_comm]

end Texts

namespace ResourceRecords

variable {ρ : Type*} (g : ResourceRecords ρ)

/-- The resource holds the text under the key, and nothing else under it. -/
def Says (key s : String) : Prop := ∀ v, ⟨key, v⟩ ∈ g.resource ↔ v = .string s

def records : List ρ := g.scopes.flatten

end ResourceRecords

def AnyValue.toAttr : AnyValue → AttrValue
  | string s => .str s
  | int i => .int i
  | double f => .float f
  | bool b => .bool b

def KeyValue.attr (kv : KeyValue) : String × AttrValue := (kv.key, kv.value.toAttr)

theorem map_attr_pbAttrs (attrs : Attributes) : (pbAttrs attrs).map KeyValue.attr = attrs := by
  rw [pbAttrs, List.map_map]
  refine List.map_id'' (fun a => ?_) attrs
  obtain ⟨k, v⟩ := a
  cases v <;> rfl

theorem toNat_nanos {t : SystemTime} (h : t < 2 ^ 64) : (nanos t).toNat = t :=
  UInt64.toNat_ofNat_of_lt' h

section Groups

variable {α ρ : Type*} (attributes : α → Attributes) (convert : α → ρ)

open Classical in
/-- The records of a service, as they stand in the batch. -/
noncomputable def ofService (service : String) (records : List α) : List α :=
  records.filter fun r => ServiceName (attributes r) service

/-- The first text under `host.name` that a record holds. -/
def FirstHost (records : List α) (host : String) : Prop :=
  ∃ before r later, records = before ++ r :: later ∧ FirstText (attributes r) "host.name" host ∧
    ∀ q ∈ before, NoText (attributes q) "host.name"

/-- The groups of a request against the records it was made from: one group for each service that
occurs, holding the records of that service as they stand in the batch. -/
structure Grouped (Carries : ρ → α → Prop) (records : List α) (groups : List (ResourceRecords ρ)) :
    Prop where
  named : ∀ g ∈ groups, ∃ service, g.Says "service.name" service
  distinct : groups.Pairwise fun g g' =>
    ∀ service, g.Says "service.name" service → ¬ g'.Says "service.name" service
  nonempty : ∀ g ∈ groups, g.records ≠ []
  complete : ∀ r ∈ records, ∃ g ∈ groups, ∃ service,
    g.Says "service.name" service ∧ ServiceName (attributes r) service
  filed : ∀ g ∈ groups, ∀ service, g.Says "service.name" service →
    List.Forall₂ Carries g.records (ofService attributes service records)
  host : ∀ g ∈ groups, ∀ service, g.Says "service.name" service → ∀ host,
    g.Says "host.name" host ↔ FirstHost attributes (ofService attributes service records) host
  noHost : ∀ g ∈ groups, ∀ service, g.Says "service.name" service →
    (∀ r ∈ ofService attributes service records, NoText (attributes r) "host.name") →
      ∀ v, ⟨"host.name", v⟩ ∉ g.resource

theorem ofService_eq (service : String) (records : List α) :
    ofService attributes service records =
      records.filter fun r => serviceOf attributes r = service := by
  classical
  apply List.filter_congr
  intro r _
  rw [decide_eq_decide]
  exact serviceName_iff

def firstHost (records : List α) : Option String :=
  records.findSome? fun r => attrStr (attributes r) "host.name"

theorem firstHost_eq_some_iff {records : List α} {host : String} :
    firstHost attributes records = some host ↔ FirstHost attributes records host := by
  simp only [firstHost, List.findSome?_eq_some_iff, attrStr_eq_some_iff, attrStr_eq_none_iff, FirstHost]

theorem firstHost_concat (records : List α) (r : α) :
    firstHost attributes (records ++ [r]) =
      (firstHost attributes records).or (attrStr (attributes r) "host.name") := by
  simp [firstHost, List.findSome?_append]

/-- What the two maps hold of a service. -/
def inMaps (maps : Table String (List ρ) × Table String String) (service : String) :
    Option (List ρ) × Option String :=
  (maps.1.lookup service, maps.2.lookup service)

def addRecord (held : Option (List ρ) × Option String) (r : α) : Option (List ρ) × Option String :=
  (some (held.1.getD [] ++ [convert r]),
    match attrStr (attributes r) "host.name" with
    | some h => some (held.2.getD h)
    | none => held.2)

theorem inMaps_group (maps : Table String (List ρ) × Table String String) (r : α) (service : String) :
    inMaps (group attributes convert maps r) service =
      if serviceOf attributes r = service then addRecord attributes convert (inMaps maps service) r
      else inMaps maps service := by
  unfold inMaps group addRecord
  split_ifs with hService
  · subst hService
    cases attrStr (attributes r) "host.name" <;> simp
  · have hNe : service ≠ serviceOf attributes r := fun h => hService h.symm
    cases attrStr (attributes r) "host.name" <;> simp [AList.lookup_insert_ne hNe]

theorem foldl_addRecord (records : List α) :
    records.foldl (addRecord attributes convert) (none, none) =
      (if records = [] then none else some (records.map convert),
        firstHost attributes records) := by
  induction records using List.reverseRecOn with
  | nil => rfl
  | append_singleton records r ih =>
    rw [List.foldl_append, ih, List.foldl_cons, List.foldl_nil, addRecord, firstHost_concat]
    refine Prod.ext ?_ ?_
    · cases records <;> simp
    · cases attrStr (attributes r) "host.name" <;> cases firstHost attributes records <;> rfl

theorem inMaps_foldl (records : List α) (service : String) :
    inMaps (records.foldl (group attributes convert) (∅, ∅)) service =
      (if ofService attributes service records = [] then none
        else some ((ofService attributes service records).map convert),
        firstHost attributes (ofService attributes service records)) := by
  rw [foldl_keyed (inMaps_group attributes convert), ← foldl_addRecord, ofService_eq]
  rfl

theorem lookups_foldl (records : List α) (service : String) :
    (records.foldl (group attributes convert) (∅, ∅)).1.lookup service =
        (if ofService attributes service records = [] then none
          else some ((ofService attributes service records).map convert)) ∧
      (records.foldl (group attributes convert) (∅, ∅)).2.lookup service =
        firstHost attributes (ofService attributes service records) :=
  Prod.ext_iff.mp (inMaps_foldl attributes convert records service)

variable {attributes convert}

theorem mem_resources {records : List α} {g : ResourceRecords ρ} :
    g ∈ resources attributes convert records ↔
      ∃ service, ofService attributes service records ≠ [] ∧
        g = ⟨resKv "service.name" service ::
            ((firstHost attributes (ofService attributes service records)).map
              (resKv "host.name")).toList,
          [(ofService attributes service records).map convert]⟩ := by
  rw [resources, List.mem_map]
  constructor
  · rintro ⟨⟨service, converted⟩, he, rfl⟩
    obtain ⟨hRecords, hHost⟩ := lookups_foldl attributes convert records service
    have hLookup := AList.mem_lookup_iff.mpr he
    rw [Option.mem_def, hRecords, Option.ite_none_left_eq_some, Option.some.injEq] at hLookup
    obtain ⟨hNe, rfl⟩ := hLookup
    exact ⟨service, hNe, by rw [← hHost]⟩
  · rintro ⟨service, hNe, rfl⟩
    obtain ⟨hRecords, hHost⟩ := lookups_foldl attributes convert records service
    refine ⟨⟨service, (ofService attributes service records).map convert⟩, ?_, by rw [← hHost]⟩
    rw [← AList.mem_lookup_iff, Option.mem_def, hRecords, if_neg hNe]

theorem says_service {service service' : String} {host : Option String} {scopes : List (List ρ)} :
    ResourceRecords.Says
        ⟨resKv "service.name" service :: (host.map (resKv "host.name")).toList, scopes⟩
        "service.name" service' ↔ service = service' := by
  cases host <;> simp [ResourceRecords.Says, resKv, eq_comm]

theorem says_host {service h : String} {host : Option String} {scopes : List (List ρ)} :
    ResourceRecords.Says
        ⟨resKv "service.name" service :: (host.map (resKv "host.name")).toList, scopes⟩
        "host.name" h ↔ host = some h := by
  cases host with
  | none =>
    refine iff_of_false (fun hSays => ?_) (by simp)
    have hMem := (hSays (.string h)).mpr rfl
    simp [resKv] at hMem
  | some host => simp [ResourceRecords.Says, resKv, eq_comm]

theorem resources_distinct (records : List α) :
    (resources attributes convert records).Pairwise fun g g' =>
      ∀ service, g.Says "service.name" service → ¬ g'.Says "service.name" service := by
  rw [resources, List.pairwise_map]
  refine (List.nodupKeys_iff_pairwise.mp (AList.nodupKeys _)).imp ?_
  rintro e e' hNe service hSays hSays'
  exact hNe ((says_service.mp hSays).trans (says_service.mp hSays').symm)

/-- However the maps are walked, the groups are those of the records by service. -/
theorem grouped_resources {Carries : ρ → α → Prop} {records : List α}
    (hCarries : ∀ r ∈ records, Carries (convert r) r) {groups : List (ResourceRecords ρ)}
    (hOrder : groups.Perm (resources attributes convert records)) :
    Grouped attributes Carries records groups := by
  have hForm {g : ResourceRecords ρ} (hg : g ∈ groups) := mem_resources.mp (hOrder.mem_iff.mp hg)
  refine ⟨fun g hg => ?_, ?_, fun g hg => ?_, fun r hr => ?_, fun g hg service hSays => ?_,
    fun g hg service hSays host => ?_, fun g hg service hSays hNone v => ?_⟩
  · obtain ⟨service, -, rfl⟩ := hForm hg
    exact ⟨service, says_service.mpr rfl⟩
  · refine (hOrder.pairwise_iff ?_).mpr (resources_distinct records)
    intro g g' hApart service hSays' hSays
    exact hApart service hSays hSays'
  · obtain ⟨service, hNe, rfl⟩ := hForm hg
    simpa [ResourceRecords.records] using hNe
  · have hMem : r ∈ ofService attributes (serviceOf attributes r) records := by
      rw [ofService_eq]
      exact List.mem_filter.mpr ⟨hr, decide_eq_true rfl⟩
    exact ⟨_, hOrder.mem_iff.mpr (mem_resources.mpr ⟨_, List.ne_nil_of_mem hMem, rfl⟩), _,
      says_service.mpr rfl, serviceName_iff.mpr rfl⟩
  · obtain ⟨service', -, rfl⟩ := hForm hg
    obtain rfl := says_service.mp hSays
    simp only [ResourceRecords.records, List.flatten_singleton]
    refine List.forall₂_map_left_iff.mpr (List.forall₂_same.mpr fun r hr => ?_)
    exact hCarries r (List.mem_filter.mp hr).1
  · obtain ⟨service', -, rfl⟩ := hForm hg
    obtain rfl := says_service.mp hSays
    rw [says_host, firstHost_eq_some_iff]
  · obtain ⟨service', -, rfl⟩ := hForm hg
    obtain rfl := says_service.mp hSays
    have hHost : firstHost attributes (ofService attributes service' records) = none := by
      simpa only [firstHost, List.findSome?_eq_none_iff, attrStr_eq_none_iff] using hNone
    simp [hHost, resKv]

end Groups

section Records

structure PbSpan.Carries (pb : PbSpan) (sp : Span) : Prop where
  traceId : pb.traceId = sp.traceId
  spanId : pb.spanId = sp.spanId
  parentSpanId : pb.parentSpanId = sp.parentSpanId
  name : pb.name = sp.name
  start : pb.startTimeUnixNano.toNat = sp.start
  stop : pb.endTimeUnixNano.toNat = sp.stop
  attributes : pb.attributes.map KeyValue.attr = sp.attributes

structure PbLogRecord.Carries (pb : PbLogRecord) (l : LogRecord) : Prop where
  traceId : pb.traceId = l.traceId
  spanId : pb.spanId = l.spanId
  body : pb.body = .string l.body
  time : pb.timeUnixNano.toNat = l.timestamp
  observedTime : pb.observedTimeUnixNano.toNat = l.timestamp
  attributes : pb.attributes.map KeyValue.attr = l.attributes

structure HistogramDataPoint.Carries (dp : HistogramDataPoint) (hp : HistogramPoint) : Prop where
  start : dp.startTimeUnixNano.toNat = hp.startTime
  time : dp.timeUnixNano.toNat = hp.timestamp
  attributes : dp.attributes.map KeyValue.attr = hp.attributes
  count : dp.count = hp.count
  sum : dp.sum = hp.sum
  bucketCounts : dp.bucketCounts = hp.bucketCounts
  explicitBounds : dp.explicitBounds = hp.explicitBounds
  min : dp.min = hp.min
  max : dp.max = hp.max

structure PbMetric.Carries (pb : PbMetric) (hp : HistogramPoint) : Prop where
  name : pb.name = hp.name
  unit : pb.unit = hp.unit.getD ""
  dataPoint : ∃ dp, pb.data.dataPoints = [dp] ∧ dp.Carries hp

/-- The times that go into a request lie between the epoch and the end of `u64` nanoseconds. -/
def Signal.TimesFit : Signal → Prop
  | .metric _ => True
  | .histogram h => h.startTime < 2 ^ 64 ∧ h.timestamp < 2 ^ 64
  | .log l => l.timestamp < 2 ^ 64
  | .span s => s.start < 2 ^ 64 ∧ s.stop < 2 ^ 64

theorem pbSpan_carries {sp : Span} (h : (Signal.span sp).TimesFit) : (pbSpan sp).Carries sp :=
  ⟨rfl, rfl, rfl, rfl, toNat_nanos h.1, toNat_nanos h.2, map_attr_pbAttrs _⟩

theorem pbLogRecord_carries {l : LogRecord} (h : (Signal.log l).TimesFit) :
    (pbLogRecord l).Carries l :=
  ⟨rfl, rfl, rfl, toNat_nanos h, toNat_nanos h, map_attr_pbAttrs _⟩

theorem pbMetric_carries {hp : HistogramPoint} (h : (Signal.histogram hp).TimesFit) :
    (pbMetric hp).Carries hp :=
  ⟨rfl, rfl, _, rfl, toNat_nanos h.1, toNat_nanos h.2, map_attr_pbAttrs _, rfl, rfl, rfl, rfl, rfl,
    rfl⟩

end Records

section Batch

def metricsOf (batch : List Signal) : List Metric :=
  batch.filterMap fun
    | .metric m => some m
    | _ => none

def spansOf (batch : List Signal) : List Span :=
  batch.filterMap fun
    | .span s => some s
    | _ => none

def logsOf (batch : List Signal) : List LogRecord :=
  batch.filterMap fun
    | .log l => some l
    | _ => none

def histogramsOf (batch : List Signal) : List HistogramPoint :=
  batch.filterMap fun
    | .histogram h => some h
    | _ => none

/-- Every signal of a batch is one of the metrics, the spans, the logs or the histograms, once. -/
theorem perm_by_kind (batch : List Signal) :
    batch.Perm ((metricsOf batch).map .metric ++ (spansOf batch).map .span ++
      (logsOf batch).map .log ++ (histogramsOf batch).map .histogram) := by
  induction batch with
  | nil => exact .refl _
  | cons s batch ih =>
    refine (ih.cons s).trans ?_
    cases s with
    | metric m => exact .refl _
    | span sp => exact (List.perm_middle.symm.append_right _).append_right _
    | log l => exact List.perm_middle.symm.append_right _
    | histogram h => exact List.perm_middle.symm

variable {σ : Type*} (sdk : Sdk σ)

/-- Of a table of instruments the metric touches the one of its own name: the one that is there, or
a new one with the metric's unit. -/
structure Makes (m : Metric) (i : Instrument) (old new : Table String Instrument) : Prop where
  own : new.lookup m.name = some i
  kept : ∀ j, old.lookup m.name = some j → i = j
  made : old.lookup m.name = none → i = ⟨m.name, m.unit⟩
  others : ∀ name, name ≠ m.name → new.lookup name = old.lookup name

/-- A metric goes to one instrument, of the kind its own kind asks for, with its value and its
attributes; the tables of the other kinds stay as they are. -/
inductive Recorded (m : Metric) (e : OtlpExporter σ) : OtlpExporter σ → Prop where
  | gauge (i : Instrument) (attrs : List KeyValue) (gauges : Table String Instrument) :
      m.kind = .gauge ∨ m.kind = .upDownCounter → attrs.map KeyValue.attr = m.attributes →
      Makes m i e.gauges gauges →
      Recorded m e ⟨sdk.recordGauge i m.value attrs e.provider, gauges, e.counters, e.histograms⟩
  | counter (i : Instrument) (attrs : List KeyValue) (counters : Table String Instrument) :
      m.kind = .counter → attrs.map KeyValue.attr = m.attributes → Makes m i e.counters counters →
      Recorded m e ⟨sdk.addCounter i m.value attrs e.provider, e.gauges, counters, e.histograms⟩
  | histogram (i : Instrument) (attrs : List KeyValue) (histograms : Table String Instrument) :
      m.kind = .histogram → attrs.map KeyValue.attr = m.attributes →
      Makes m i e.histograms histograms →
      Recorded m e ⟨sdk.recordHistogram i m.value attrs e.provider, e.gauges, e.counters, histograms⟩

/-- The metrics are recorded one after the other. -/
inductive RecordedAll : List Metric → OtlpExporter σ → OtlpExporter σ → Prop where
  | nil (e : OtlpExporter σ) : RecordedAll [] e e
  | cons {m : Metric} {ms : List Metric} {e e' e'' : OtlpExporter σ} :
      Recorded sdk m e e' → RecordedAll ms e' e'' → RecordedAll (m :: ms) e e''

theorem makes_instrument (m : Metric) (made : Table String Instrument) :
    Makes m (OtlpExporter.instrument made m) made
      (made.insert m.name (OtlpExporter.instrument made m)) where
  own := AList.lookup_insert _
  kept j hj := by rw [OtlpExporter.instrument, hj, Option.getD_some]
  made hNone := by rw [OtlpExporter.instrument, hNone, Option.getD_none]
  others name hNe := AList.lookup_insert_ne hNe

theorem map_attr_toKeyValues (attrs : Attributes) :
    (toKeyValues attrs).map KeyValue.attr = attrs := map_attr_pbAttrs attrs

theorem recorded_recordMetric (m : Metric) (e : OtlpExporter σ) :
    Recorded sdk m e (e.recordMetric sdk m) := by
  have hAttrs := map_attr_toKeyValues m.attributes
  unfold OtlpExporter.recordMetric
  cases hKind : m.kind with
  | gauge => exact .gauge _ _ _ (.inl hKind) hAttrs (makes_instrument m e.gauges)
  | upDownCounter => exact .gauge _ _ _ (.inr hKind) hAttrs (makes_instrument m e.gauges)
  | counter => exact .counter _ _ _ hKind hAttrs (makes_instrument m e.counters)
  | histogram => exact .histogram _ _ _ hKind hAttrs (makes_instrument m e.histograms)

theorem recordedAll_foldl (ms : List Metric) (e : OtlpExporter σ) :
    RecordedAll sdk ms e (ms.foldl (OtlpExporter.recordMetric sdk) e) := by
  induction ms generalizing e with
  | nil => exact .nil e
  | cons m ms ih => exact .cons (recorded_recordMetric sdk m e) (ih _)

theorem foldl_put (batch : List Signal) (s : Sorting σ) :
    batch.foldl (Sorting.put sdk) s =
      ⟨(metricsOf batch).foldl (OtlpExporter.recordMetric sdk) s.exporter, s.spans ++ spansOf batch,
        s.logs ++ logsOf batch, s.histos ++ histogramsOf batch⟩ := by
  induction batch generalizing s with
  | nil => simp [metricsOf, spansOf, logsOf, histogramsOf]
  | cons signal batch ih =>
    rw [List.foldl_cons, ih]
    cases signal <;>
      simp [Sorting.put, metricsOf, spansOf, logsOf, histogramsOf]

theorem send_of_ok {clients : Clients} (hClients : ∀ request, clients request = .ok ())
    (requests : List Request) : send clients requests = (requests, .ok ()) := by
  induction requests with
  | nil => rfl
  | cons request requests ih => rw [send, hClients, ih]

/-- The ways out of an export: each signal takes one of them, and each way keeps the batch's order. -/
structure Routed (e : OtlpExporter σ) (batch : List Signal)
    (out : OtlpExporter σ × List Request × Except ExportError Unit) : Prop where
  once : batch.Perm ((metricsOf batch).map .metric ++ (spansOf batch).map .span ++
    (logsOf batch).map .log ++ (histogramsOf batch).map .histogram)
  instruments : RecordedAll sdk (metricsOf batch) e out.1
  requests : out.2.1 =
    (if spansOf batch = [] then [] else [.trace (buildTraceRequest (spansOf batch))]) ++
      (if logsOf batch = [] then [] else [.logs (buildLogsRequest (logsOf batch))]) ++
      (if histogramsOf batch = [] then []
        else [.metrics (buildHistogramRequest (histogramsOf batch))])
  ok : out.2.2 = .ok ()

theorem routed_exportBatch {clients : Clients} (hClients : ∀ request, clients request = .ok ())
    (e : OtlpExporter σ) (batch : List Signal) :
    Routed sdk e batch (e.exportBatch sdk clients batch) := by
  have hOut : e.exportBatch sdk clients batch =
      ((metricsOf batch).foldl (OtlpExporter.recordMetric sdk) e,
        Sorting.requests ⟨e, spansOf batch, logsOf batch, histogramsOf batch⟩, .ok ()) := by
    rw [OtlpExporter.exportBatch, foldl_put, send_of_ok hClients]
    rfl
  rw [hOut]
  exact ⟨perm_by_kind batch, recordedAll_foldl sdk _ e, rfl, rfl⟩

theorem mem_of_mem_kind {batch : List Signal} :
    (∀ s ∈ spansOf batch, .span s ∈ batch) ∧ (∀ l ∈ logsOf batch, .log l ∈ batch) ∧
      ∀ h ∈ histogramsOf batch, .histogram h ∈ batch := by
  have hPerm := perm_by_kind batch
  refine ⟨fun s hs => ?_, fun l hl => ?_, fun h hh => ?_⟩ <;> rw [hPerm.mem_iff]
  · simp [hs]
  · simp [hl]
  · simp [hh]

/-- A batch is neither lost nor misfiled: each signal goes one way, and each of the three requests
files its records by service, however its maps are walked. -/
theorem export_neither_loses_nor_misfiles {clients : Clients}
    (hClients : ∀ request, clients request = .ok ()) (e : OtlpExporter σ) {batch : List Signal}
    (hTimes : ∀ s ∈ batch, s.TimesFit) :
    Routed sdk e batch (e.exportBatch sdk clients batch) ∧
      (∀ groups, groups.Perm (buildTraceRequest (spansOf batch)) →
        Grouped Span.attributes PbSpan.Carries (spansOf batch) groups) ∧
      (∀ groups, groups.Perm (buildLogsRequest (logsOf batch)) →
        Grouped LogRecord.attributes PbLogRecord.Carries (logsOf batch) groups) ∧
      ∀ groups, groups.Perm (buildHistogramRequest (histogramsOf batch)) →
        Grouped HistogramPoint.attributes PbMetric.Carries (histogramsOf batch) groups := by
  obtain ⟨hSpans, hLogs, hHistograms⟩ := @mem_of_mem_kind batch
  refine ⟨routed_exportBatch sdk hClients e batch, fun groups => grouped_resources fun sp hsp => ?_,
    fun groups => grouped_resources fun l hl => ?_, fun groups => grouped_resources fun hp hhp => ?_⟩
  · exact pbSpan_carries (hTimes _ (hSpans sp hsp))
  · exact pbLogRecord_carries (hTimes _ (hLogs l hl))
  · exact pbMetric_carries (hTimes _ (hHistograms hp hhp))

end Batch

section Sample

def sampleSpan (spanId : UInt8) (attributes : Attributes) : Span where
  traceId := [1]
  spanId := [spanId]
  parentSpanId := []
  name := "query"
  kind := .server
  start := 1000
  stop := 2500
  status := .ok
  attributes := attributes

def sampleLatency : HistogramPoint where
  name := "http.server.duration"
  unit := some "ms"
  count := 3
  sum := 42
  bucketCounts := [1, 2]
  explicitBounds := [10]
  min := some 4
  max := some 30
  startTime := 0
  timestamp := 3000
  attributes := [("service.name", .str "api")]

def sampleBatch : List Signal :=
  [.span (sampleSpan 1 [("service.name", .str "api")]), .metric (.now "up" .gauge 1),
    .span (sampleSpan 2 []), .log ⟨.info, "ready", [("service.name", .int 7)], 1500, [], []⟩,
    .span (sampleSpan 3 [("service.name", .str "api"), ("host.name", .str "node-1")]),
    .histogram sampleLatency]

open ContainerCollector in
theorem a_mixed_batch_is_filed :
    Routed sampleSdk (.new sampleSdk) sampleBatch
        (OtlpExporter.exportBatch sampleSdk sampleClients (.new sampleSdk) sampleBatch) ∧
      (∀ groups, groups.Perm (buildTraceRequest (spansOf sampleBatch)) →
        Grouped Span.attributes PbSpan.Carries (spansOf sampleBatch) groups) ∧
      (∀ groups, groups.Perm (buildLogsRequest (logsOf sampleBatch)) →
        Grouped LogRecord.attributes PbLogRecord.Carries (logsOf sampleBatch) groups) ∧
      ∀ groups, groups.Perm (buildHistogramRequest (histogramsOf sampleBatch)) →
        Grouped HistogramPoint.attributes PbMetric.Carries (histogramsOf sampleBatch) groups :=
  export_neither_loses_nor_misfiles sampleSdk (fun _ => rfl) (.new sampleSdk)
    (by simp [sampleBatch, sampleSpan, sampleLatency, Signal.TimesFit])

end Sample

end HarnessSphere
