import HarnessSphere.Library.Table
import HarnessSphere.Domain.Signal

/-! # The requests of the OTLP exporter

Spans, logs and histograms leave in requests of their own. A request groups its records by the service
they name, so that the service stands on the resource.
-/

namespace HarnessSphere

inductive AnyValue where
  | string (value : String)
  | int (value : Int)
  | double (value : F64)
  | bool (value : Bool)
  deriving DecidableEq, Repr

structure KeyValue where
  key : String
  value : AnyValue
  deriving DecidableEq, Repr

def AttrValue.toAny : AttrValue → AnyValue
  | str s => .string s
  | int i => .int i
  | float f => .double f
  | bool b => .bool b

def toKeyValues (attrs : Attributes) : List KeyValue := attrs.map fun (k, v) => ⟨k, v.toAny⟩

def pbAttrs (attrs : Attributes) : List KeyValue := attrs.map fun (k, v) => ⟨k, v.toAny⟩

/-- `as u64` on the nanoseconds since the epoch. -/
def nanos (t : SystemTime) : UInt64 := UInt64.ofNat t

/-- The numbers of the protocol's enumeration. -/
def pbKind : SpanKind → Nat
  | .internal => 1
  | .client => 3
  | .server => 2

structure PbStatus where
  message : String
  code : Nat
  deriving DecidableEq, Repr

def pbStatusOf (s : SpanStatus) : Option PbStatus :=
  let code := match s with
    | .unset => 0
    | .ok => 1
    | .error => 2
  some ⟨"", code⟩

def pbSeverity : Severity → Nat
  | .trace => 1
  | .debug => 5
  | .info => 9
  | .warn => 13
  | .error => 17

structure PbSpan where
  traceId : List UInt8
  spanId : List UInt8
  parentSpanId : List UInt8
  name : String
  kind : Nat
  startTimeUnixNano : UInt64
  endTimeUnixNano : UInt64
  attributes : List KeyValue
  status : Option PbStatus
  deriving DecidableEq, Repr

structure PbLogRecord where
  timeUnixNano : UInt64
  observedTimeUnixNano : UInt64
  severityNumber : Nat
  body : AnyValue
  attributes : List KeyValue
  traceId : List UInt8
  spanId : List UInt8
  deriving DecidableEq, Repr

structure HistogramDataPoint where
  attributes : List KeyValue
  startTimeUnixNano : UInt64
  timeUnixNano : UInt64
  count : Nat
  sum : F64
  bucketCounts : List Nat
  explicitBounds : List F64
  min : Option F64
  max : Option F64
  deriving DecidableEq, Repr

inductive AggregationTemporality where
  | unspecified | delta | cumulative
  deriving DecidableEq, Repr

structure PbHistogram where
  dataPoints : List HistogramDataPoint
  aggregationTemporality : AggregationTemporality
  deriving DecidableEq, Repr

structure PbMetric where
  name : String
  unit : String
  data : PbHistogram
  deriving DecidableEq, Repr

/-- `ResourceSpans`, `ResourceLogs` and `ResourceMetrics`: the attributes of a resource, and its
records by scope. -/
structure ResourceRecords (ρ : Type*) where
  resource : List KeyValue
  scopes : List (List ρ)
  deriving DecidableEq, Repr

def attrStr (attrs : Attributes) (key : String) : Option String :=
  attrs.findSome? fun
    | (k, .str s) => if k = key then some s else none
    | _ => none

def resKv (key value : String) : KeyValue := ⟨key, .string value⟩

section Groups

variable {α ρ : Type*} (attributes : α → Attributes) (convert : α → ρ)

def serviceOf (record : α) : String := (attrStr (attributes record) "service.name").getD "unknown"

/-- The two maps of a builder: the converted records by service, and each service's first host. -/
def group (maps : Table String (List ρ) × Table String String) (record : α) :
    Table String (List ρ) × Table String String :=
  let service := serviceOf attributes record
  let (byService, hostOf) := maps
  (byService.insert service ((byService.lookup service).getD [] ++ [convert record]),
    match attrStr (attributes record) "host.name" with
    | some h => hostOf.insert service ((hostOf.lookup service).getD h)
    | none => hostOf)

def resources (records : List α) : List (ResourceRecords ρ) :=
  let (byService, hostOf) := records.foldl (group attributes convert) (∅, ∅)
  byService.entries.map fun ⟨service, converted⟩ =>
    ⟨resKv "service.name" service :: ((hostOf.lookup service).map (resKv "host.name")).toList,
      [converted]⟩

end Groups

def pbSpan (sp : Span) : PbSpan where
  traceId := sp.traceId
  spanId := sp.spanId
  parentSpanId := sp.parentSpanId
  name := sp.name
  kind := pbKind sp.kind
  startTimeUnixNano := nanos sp.start
  endTimeUnixNano := nanos sp.stop
  attributes := pbAttrs sp.attributes
  status := pbStatusOf sp.status

def buildTraceRequest (spans : List Span) : List (ResourceRecords PbSpan) :=
  resources Span.attributes pbSpan spans

def pbLogRecord (l : LogRecord) : PbLogRecord where
  timeUnixNano := nanos l.timestamp
  observedTimeUnixNano := nanos l.timestamp
  severityNumber := pbSeverity l.severity
  body := .string l.body
  attributes := pbAttrs l.attributes
  traceId := l.traceId
  spanId := l.spanId

def buildLogsRequest (logs : List LogRecord) : List (ResourceRecords PbLogRecord) :=
  resources LogRecord.attributes pbLogRecord logs

def pbMetric (hp : HistogramPoint) : PbMetric where
  name := hp.name
  unit := hp.unit.getD ""
  data :=
    ⟨[{ attributes := pbAttrs hp.attributes
        startTimeUnixNano := nanos hp.startTime
        timeUnixNano := nanos hp.timestamp
        count := hp.count
        sum := hp.sum
        bucketCounts := hp.bucketCounts
        explicitBounds := hp.explicitBounds
        min := hp.min
        max := hp.max }], .cumulative⟩

def buildHistogramRequest (histos : List HistogramPoint) : List (ResourceRecords PbMetric) :=
  resources HistogramPoint.attributes pbMetric histos

end HarnessSphere
