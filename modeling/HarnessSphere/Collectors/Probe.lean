import HarnessSphere.Domain.Ports

/-! # The endpoint probe

One source probes endpoints of several layers, so each signal says the layer of its target itself.
-/

namespace HarnessSphere

@[ext]
structure ProbeTarget where
  address : String
  layer : Layer
  deriving DecidableEq, Repr

/-- What came of one connection: whether it was there within the timeout, and how long that took, in
nanoseconds. -/
structure Attempt where
  up : Bool
  elapsed : Nat
  deriving DecidableEq, Repr

def Attempt.seconds (a : Attempt) : F64 := (a.elapsed : ℚ) / 1000000000

theorem Attempt.seconds_nonneg (a : Attempt) : 0 ≤ a.seconds :=
  div_nonneg (Nat.cast_nonneg _) (Nat.ofNat_nonneg _)

structure EndpointProbeCollector where
  descriptor : SourceDescriptor
  targets : List ProbeTarget

namespace EndpointProbeCollector

def new (targets : List ProbeTarget) (interval : Duration) : EndpointProbeCollector :=
  ⟨⟨"endpoint-probe", .watcher, .optional, interval⟩, targets⟩

variable (c : EndpointProbeCollector)

def probe : ProbeResult := if c.targets.isEmpty then .notApplicable else .ready

def tag (target : ProbeTarget) (m : Metric) : Metric :=
  (m.attr "server.address" (.str target.address)).attr layerAttr (.str target.layer.asStr)

/-- A target that is down is emitted as an honest zero. -/
def signals (target : ProbeTarget) (a : Attempt) : List Signal :=
  [(tag target (.now "harnesssphere.endpoint.up" .gauge (if a.up then 1 else 0))).intoSignal,
    (tag target ((Metric.now "harnesssphere.endpoint.probe.duration" .gauge a.seconds).withUnit
      "s")).intoSignal]

/-- `connect` is what comes of the attempt on a target at its place in the list. -/
def collect (connect : Nat → ProbeTarget → Attempt) : List Signal × Except CollectError Unit :=
  (c.targets.zipIdx.flatMap fun (target, i) => signals target (connect i target), .ok ())

end EndpointProbeCollector

end HarnessSphere
