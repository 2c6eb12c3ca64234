import HarnessSphere.Collectors.Host
import HarnessSphere.Collectors.Probe
import HarnessSphere.Composition.Keys
import HarnessSphere.Composition.Stats
import HarnessSphere.Runtime.Task

/-! # The sources of the program

The supervisor knows its sources by one interface. Here are the eight collectors behind it, each with
what its calls find outside the process.
-/

namespace HarnessSphere

/-- What a call of a source finds when it looks. -/
structure World where
  fs : Fs
  fromStr : Json.FromStr
  sys : Sysinfo
  connect : Nat → ProbeTarget → Attempt
  workspaces : Nat
  scans : Nat

inductive SignalSource where
  | host (c : HostCollector)
  | self (c : SelfCollector)
  | process (c : ProcessCollector)
  | endpointProbe (c : EndpointProbeCollector)
  | container (c : ContainerCollector)
  | discovery (c : DiscoveryStats)
  | session (c : SessionCollector)
  | learning (c : LearningCollector)

namespace SignalSource

def descriptor : SignalSource → SourceDescriptor
  | host c => c.descriptor
  | self c => c.descriptor
  | process c => c.descriptor
  | endpointProbe c => c.descriptor
  | container c => c.descriptor
  | discovery c => c.descriptor
  | session c => c.descriptor
  | learning c => c.descriptor

def probe (world : World) : SignalSource → ProbeResult
  | host _ => HostCollector.probe world.sys
  | self c => c.probe world.sys
  | process c => c.probe
  | endpointProbe c => c.probe
  | container c => c.probe world.fs
  | discovery _ => DiscoveryStats.probe
  | session c => SessionCollector.probe world.fs c
  | learning c => LearningCollector.probe world.fs c

def collect (world : World) : SignalSource → SignalSource × List Signal × Except CollectError Unit
  | host c => (host c, HostCollector.collect world.sys)
  | self c => (self c, c.collect world.sys)
  | process c => (process c, c.collect world.sys)
  | endpointProbe c => (endpointProbe c, c.collect world.connect)
  | container c => (container c, c.collect world.fs)
  | discovery c => (discovery c, DiscoveryStats.collect world.workspaces world.scans)
  | session c =>
    let (c, result) := SessionCollector.collect world.fromStr world.fs c
    (session c, result)
  | learning c =>
    let (c, result) := LearningCollector.collect world.fromStr world.fs c
    (learning c, result)

/-- Only what discovery adds has terminal signals of its own; the trait's default emits none. -/
def retire : SignalSource → List Signal
  | session c => c.retire
  | learning c => c.retire
  | _ => []

/-- A source as its constructor made it, after any number of collections. -/
inductive Made : SignalSource → Prop where
  | host (interval : Duration) : Made (host (.new interval))
  | self {pid : Except String UInt32} {interval : Duration} {c : SelfCollector}
      (hNew : SelfCollector.new pid interval = .ok c) : Made (self c)
  | process (names : List String) (interval : Duration) : Made (process (.new names interval))
  | endpointProbe (targets : List ProbeTarget) (interval : Duration) :
      Made (endpointProbe (.new targets interval))
  | container (cgroup : Path) (id : String) (interval : Duration) :
      Made (container (.new cgroup id interval))
  | discovery (interval : Duration) : Made (discovery (.new interval))
  | session (w : Workspace) (source : String) (interval : Duration) :
      Made (session (.new w source interval))
  | learning (w : Workspace) (source : String) (interval : Duration) :
      Made (learning (.new w source interval))
  | collected {s : SignalSource} (world : World) (hMade : Made s) : Made (s.collect world).1

/-- What the supervisor is told of a source, and does not change over its collections. -/
def identity : SignalSource → String × Layer × Criticality
  | host _ => ("host", .host, .critical)
  | self _ => ("self", .watcher, .critical)
  | process _ => ("process", .host, .optional)
  | endpointProbe _ => ("endpoint-probe", .watcher, .optional)
  | container _ => ("container", .harness, .optional)
  | discovery _ => ("discovery", .watcher, .optional)
  | session c => (c.workspace.sourceName, .harness, .optional)
  | learning c => (learningKey c.workspace.sourceName, .harness, .optional)

theorem descriptor_collect (world : World) (s : SignalSource) :
    (s.collect world).1.descriptor = s.descriptor := by
  cases s with
  | session c =>
    rcases SessionCollector.collect_cases world.fromStr world.fs c with ⟨-, e, hCollect⟩ | ⟨-, hCollect⟩ <;>
      simp only [collect, hCollect, descriptor]
  | _ => rfl

theorem identity_collect (world : World) (s : SignalSource) :
    (s.collect world).1.identity = s.identity := by
  cases s with
  | session c =>
    have hWorkspace : (SessionCollector.collect world.fromStr world.fs c).1.workspace = c.workspace :=
      SessionCollector.workspace_collect world.fs c
    simp only [collect, identity, hWorkspace]
  | _ => rfl

theorem Made.identity {s : SignalSource} (h : Made s) :
    (s.descriptor.name, s.descriptor.layer, s.descriptor.criticality) = s.identity := by
  induction h with
  | @self pid interval c hNew =>
    simp only [SignalSource.descriptor, SelfCollector.descriptor_of_new hNew]
    rfl
  | collected world hMade ih => rw [descriptor_collect, identity_collect, ih]
  | _ => rfl

/-- What a source says: at a collection, or when it is retired. -/
def Says (s : SignalSource) (signal : Signal) : Prop :=
  (∃ world, signal ∈ (s.collect world).2.1) ∨ signal ∈ s.retire

end SignalSource

section Sample

def sampleSession : SignalSource := .session sampleCollector

def sampleLearning : SignalSource := .learning (.new sampleWorkspace "picoclaw" 300)

end Sample

end HarnessSphere
