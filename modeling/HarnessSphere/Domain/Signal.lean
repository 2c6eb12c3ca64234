import Mathlib.Data.Rat.Init
import Mathlib.Algebra.Order.Field.Rat

/-! # The canonical signal model

Floats are taken as exact rationals and instants as nanoseconds since the epoch. The instant that
`Metric::now` reads from the clock is left out: neither exporter looks at a metric's timestamp.
-/

namespace HarnessSphere

abbrev F64 := ℚ

abbrev SystemTime := Nat

inductive Layer where
  | host | watcher | gateway | proxy | webapp | harness
  deriving DecidableEq, Repr

def layerAttr : String := "harnesssphere.layer"

namespace Layer

def parse : String → Option Layer
  | "host" => some host
  | "watcher" => some watcher
  | "gateway" => some gateway
  | "proxy" => some proxy
  | "webapp" => some webapp
  | "harness" => some harness
  | _ => none

def asStr : Layer → String
  | host => "host"
  | watcher => "watcher"
  | gateway => "gateway"
  | proxy => "proxy"
  | webapp => "webapp"
  | harness => "harness"

theorem parse_eq_some_iff (s : String) (l : Layer) : parse s = some l ↔ s = l.asStr := by
  constructor
  · intro h
    unfold parse at h
    split at h <;> cases h <;> rfl
  · rintro rfl
    cases l <;> rfl

end Layer

inductive AttrValue where
  | str (value : String)
  | int (value : Int)
  | float (value : F64)
  | bool (value : Bool)
  deriving DecidableEq, Repr

abbrev Attributes := List (String × AttrValue)

inductive MetricKind where
  | gauge | counter | upDownCounter | histogram
  deriving DecidableEq, Repr

structure Metric where
  name : String
  kind : MetricKind
  value : F64
  unit : Option String
  attributes : Attributes
  deriving DecidableEq, Repr

inductive Severity where
  | trace | debug | info | warn | error
  deriving DecidableEq, Repr

structure LogRecord where
  severity : Severity
  body : String
  attributes : Attributes
  timestamp : SystemTime
  traceId : List UInt8
  spanId : List UInt8
  deriving DecidableEq, Repr

inductive SpanKind where
  | internal | client | server
  deriving DecidableEq, Repr

inductive SpanStatus where
  | unset | ok | error
  deriving DecidableEq, Repr

structure Span where
  traceId : List UInt8
  spanId : List UInt8
  parentSpanId : List UInt8
  name : String
  kind : SpanKind
  start : SystemTime
  stop : SystemTime
  status : SpanStatus
  attributes : Attributes
  deriving DecidableEq, Repr

structure HistogramPoint where
  name : String
  unit : Option String
  count : Nat
  sum : F64
  bucketCounts : List Nat
  explicitBounds : List F64
  min : Option F64
  max : Option F64
  startTime : SystemTime
  timestamp : SystemTime
  attributes : Attributes
  deriving DecidableEq, Repr

inductive Signal where
  | metric (m : Metric)
  | histogram (h : HistogramPoint)
  | log (l : LogRecord)
  | span (s : Span)
  deriving DecidableEq, Repr

namespace Signal

def attributes : Signal → Attributes
  | metric m => m.attributes
  | histogram h => h.attributes
  | log l => l.attributes
  | span s => s.attributes

/-- `attributes_mut`, with the update the caller makes through the reference. -/
def modifyAttributes (f : Attributes → Attributes) : Signal → Signal
  | metric m => metric { m with attributes := f m.attributes }
  | histogram h => histogram { h with attributes := f h.attributes }
  | log l => log { l with attributes := f l.attributes }
  | span s => span { s with attributes := f s.attributes }

@[simp] theorem attributes_modifyAttributes (f : Attributes → Attributes) (s : Signal) :
    (s.modifyAttributes f).attributes = f s.attributes := by
  cases s <;> rfl

theorem modifyAttributes_congr {f g : Attributes → Attributes} {s : Signal}
    (h : f s.attributes = g s.attributes) : s.modifyAttributes f = s.modifyAttributes g := by
  cases s <;> simp_all [modifyAttributes, attributes]

@[simp] theorem modifyAttributes_id (s : Signal) : s.modifyAttributes id = s := by
  cases s <;> rfl

end Signal

/-- What a backend keys a value by: the metric name with its complete attribute list. -/
abbrev Series := String × Attributes

namespace Metric

def now (name : String) (kind : MetricKind) (value : F64) : Metric :=
  ⟨name, kind, value, none, []⟩

def withUnit (m : Metric) (unit : String) : Metric := { m with unit := some unit }

def attr (m : Metric) (key : String) (value : AttrValue) : Metric :=
  { m with attributes := m.attributes ++ [(key, value)] }

def intoSignal (m : Metric) : Signal := .metric m

def series (m : Metric) : Series := (m.name, m.attributes)

end Metric

/-- The series a batch of signals writes, with the values written, in order. -/
def gaugeWrites (signals : List Signal) : List (Series × F64) :=
  signals.filterMap fun
    | .metric m => some (m.series, m.value)
    | _ => none

theorem gaugeWrites_append (xs ys : List Signal) :
    gaugeWrites (xs ++ ys) = gaugeWrites xs ++ gaugeWrites ys := List.filterMap_append

end HarnessSphere
