import HarnessSphere.Domain.Signal

/-! # The ports: what a source declares and what its calls return -/

namespace HarnessSphere

/-- Whole seconds. -/
abbrev Duration := Nat

inductive Criticality where
  | critical | optional
  deriving DecidableEq, Repr

structure SourceDescriptor where
  name : String
  layer : Layer
  criticality : Criticality
  defaultInterval : Duration
  deriving DecidableEq, Repr

inductive ProbeResult where
  | ready
  | unavailable (msg : String)
  | notApplicable
  | fatal (msg : String)
  deriving DecidableEq, Repr

inductive CollectError where
  | unavailable (msg : String)
  | failed (msg : String)
  deriving DecidableEq, Repr

def CollectError.toString : CollectError → String
  | unavailable msg => "target unavailable: " ++ msg
  | failed msg => "collection failed: " ++ msg

inductive ExportError where
  | failed (msg : String)
  deriving DecidableEq, Repr

end HarnessSphere
