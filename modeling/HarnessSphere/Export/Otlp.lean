import HarnessSphere.Domain.Ports
import HarnessSphere.Export.Requests

/-! # The OTLP exporter

Metrics go to instruments of the OpenTelemetry SDK, one for each name and made at its first use. The
SDK and the clients are no part of the repository: the SDK is a record of operations with the laws its
documentation gives, and the clients answer each request as they like.
-/

namespace HarnessSphere

structure Instrument where
  name : String
  unit : Option String
  deriving DecidableEq, Repr

/-- The synchronous instruments of one meter provider, and what its gauges and counters hold. -/
structure Sdk (σ : Type*) where
  start : σ
  recordGauge : Instrument → F64 → List KeyValue → σ → σ
  addCounter : Instrument → F64 → List KeyValue → σ → σ
  recordHistogram : Instrument → F64 → List KeyValue → σ → σ
  gauge : σ → Instrument → List KeyValue → Option F64
  counter : σ → Instrument → List KeyValue → Option F64

/-- Two streams, each a name with attributes, that the SDK keeps apart: it ignores the case of names
and the order of attributes. -/
def Apart (name name' : String) (attrs attrs' : List KeyValue) : Prop :=
  name.toList.map Char.toLower ≠ name'.toList.map Char.toLower ∨
    ((attrs.map KeyValue.key).Nodup ∧ (attrs'.map KeyValue.key).Nodup ∧ ¬ attrs.Perm attrs')

/-- A gauge keeps the last value recorded; a counter adds up the values that are not negative. That is
below the SDK's limit of attribute sets for each instrument, beyond which it folds new ones into one. -/
structure Sdk.Documented {σ : Type*} (sdk : Sdk σ) : Prop where
  start_gauge : ∀ i attrs, sdk.gauge sdk.start i attrs = none
  start_counter : ∀ i attrs, sdk.counter sdk.start i attrs = none
  gauge_recordGauge : ∀ s i v attrs, sdk.gauge (sdk.recordGauge i v attrs s) i attrs = some v
  gauge_recordGauge_apart : ∀ s i v attrs j attrs', Apart i.name j.name attrs attrs' →
    sdk.gauge (sdk.recordGauge i v attrs s) j attrs' = sdk.gauge s j attrs'
  gauge_addCounter : ∀ s i v attrs, sdk.gauge (sdk.addCounter i v attrs s) = sdk.gauge s
  gauge_recordHistogram : ∀ s i v attrs, sdk.gauge (sdk.recordHistogram i v attrs s) = sdk.gauge s
  counter_addCounter : ∀ s i v attrs, 0 ≤ v →
    sdk.counter (sdk.addCounter i v attrs s) i attrs = some ((sdk.counter s i attrs).getD 0 + v)
  counter_addCounter_apart : ∀ s i v attrs j attrs', Apart i.name j.name attrs attrs' →
    sdk.counter (sdk.addCounter i v attrs s) j attrs' = sdk.counter s j attrs'
  counter_recordGauge : ∀ s i v attrs, sdk.counter (sdk.recordGauge i v attrs s) = sdk.counter s
  counter_recordHistogram : ∀ s i v attrs,
    sdk.counter (sdk.recordHistogram i v attrs s) = sdk.counter s

inductive Request where
  | trace (spans : List (ResourceRecords PbSpan))
  | logs (records : List (ResourceRecords PbLogRecord))
  | metrics (histograms : List (ResourceRecords PbMetric))
  deriving DecidableEq, Repr

def Request.failed : Request → String → ExportError
  | trace _, e => .failed ("OTLP trace export: " ++ e)
  | logs _, e => .failed ("OTLP logs export: " ++ e)
  | metrics _, e => .failed ("OTLP histogram export: " ++ e)

abbrev Clients := Request → Except String Unit

structure OtlpExporter (σ : Type*) where
  provider : σ
  gauges : Table String Instrument
  counters : Table String Instrument
  histograms : Table String Instrument

namespace OtlpExporter

variable {σ : Type*} (sdk : Sdk σ)

def new : OtlpExporter σ := ⟨sdk.start, ∅, ∅, ∅⟩

/-- The unit of an instrument is the one its name first came with. -/
def instrument (made : Table String Instrument) (m : Metric) : Instrument :=
  (made.lookup m.name).getD ⟨m.name, m.unit⟩

def recordGauge (e : OtlpExporter σ) (m : Metric) : OtlpExporter σ :=
  { e with
    gauges := e.gauges.insert m.name (instrument e.gauges m)
    provider := sdk.recordGauge (instrument e.gauges m) m.value (toKeyValues m.attributes) e.provider }

def addCounter (e : OtlpExporter σ) (m : Metric) : OtlpExporter σ :=
  { e with
    counters := e.counters.insert m.name (instrument e.counters m)
    provider := sdk.addCounter (instrument e.counters m) m.value (toKeyValues m.attributes) e.provider }

def recordHistogram (e : OtlpExporter σ) (m : Metric) : OtlpExporter σ :=
  { e with
    histograms := e.histograms.insert m.name (instrument e.histograms m)
    provider :=
      sdk.recordHistogram (instrument e.histograms m) m.value (toKeyValues m.attributes) e.provider }

def recordMetric (e : OtlpExporter σ) (m : Metric) : OtlpExporter σ :=
  match m.kind with
  | .gauge | .upDownCounter => e.recordGauge sdk m
  | .counter => e.addCounter sdk m
  | .histogram => e.recordHistogram sdk m

end OtlpExporter

/-- What the loop over a batch has recorded and set aside. -/
structure Sorting (σ : Type*) where
  exporter : OtlpExporter σ
  spans : List Span
  logs : List LogRecord
  histos : List HistogramPoint

namespace Sorting

variable {σ : Type*} (sdk : Sdk σ)

def put (s : Sorting σ) : Signal → Sorting σ
  | .metric m => { s with exporter := s.exporter.recordMetric sdk m }
  | .histogram h => { s with histos := s.histos ++ [h] }
  | .span sp => { s with spans := s.spans ++ [sp] }
  | .log l => { s with logs := s.logs ++ [l] }

def requests (s : Sorting σ) : List Request :=
  (if s.spans = [] then [] else [.trace (buildTraceRequest s.spans)]) ++
    (if s.logs = [] then [] else [.logs (buildLogsRequest s.logs)]) ++
    (if s.histos = [] then [] else [.metrics (buildHistogramRequest s.histos)])

end Sorting

/-- The first request that fails is the last one sent. -/
def send (clients : Clients) : List Request → List Request × Except ExportError Unit
  | [] => ([], .ok ())
  | request :: rest =>
    match clients request with
    | .error e => ([request], .error (request.failed e))
    | .ok () =>
      let (sent, result) := send clients rest
      (request :: sent, result)

namespace OtlpExporter

variable {σ : Type*} (sdk : Sdk σ) (clients : Clients)

/-- `SignalExporter::export`: the exporter afterwards, the requests sent and the result. -/
def exportBatch (e : OtlpExporter σ) (batch : List Signal) :
    OtlpExporter σ × List Request × Except ExportError Unit :=
  let sorted := batch.foldl (Sorting.put sdk) ⟨e, [], [], []⟩
  (sorted.exporter, send clients sorted.requests)

/-- What the SDK holds for the stream of a metric, in the instrument that its kind goes to. -/
def held (e : OtlpExporter σ) (m : Metric) : Option F64 :=
  match m.kind with
  | .gauge | .upDownCounter =>
    (e.gauges.lookup m.name).bind fun g => sdk.gauge e.provider g (toKeyValues m.attributes)
  | .counter =>
    (e.counters.lookup m.name).bind fun c => sdk.counter e.provider c (toKeyValues m.attributes)
  | .histogram => none

end OtlpExporter

end HarnessSphere
