import HarnessSphere.Library.Edits
import HarnessSphere.Collectors.Session
import HarnessSphere.Collectors.Learning
import HarnessSphere.Composition.Boot
import HarnessSphere.Composition.Names
import HarnessSphere.Runtime.Supervisor

/-! # Discovery and the supervisor

`Discovery::run` compares what a scan found with what it knew and sends the difference as commands,
one by one, through a channel of bounded length. Here both parties and the channel are one machine,
and the label of a step says which of them moves. The order in which a hash map is walked is the order
of the table that the scan brings along.
-/

namespace HarnessSphere

open Machine

/-- What `Discovery::run` does not change. -/
structure Discovery where
  dataRoot : Path
  sessionInterval : Duration
  learningInterval : Duration
  harnessName : String

def byName (found : List Workspace) : Table String Workspace :=
  found.foldl (fun t w => t.insert w.sourceName w) ∅

namespace Discovery

variable (d : Discovery)

def additions (known current : Table String Workspace) : List SupervisorCmd :=
  current.entries.flatMap fun ⟨name, ws⟩ =>
    if name ∈ known then []
    else
      [.add (SessionCollector.new ws d.harnessName d.sessionInterval).descriptor,
        .add (LearningCollector.new ws d.harnessName d.learningInterval).descriptor]

end Discovery

def removals (known current : Table String Workspace) : List SupervisorCmd :=
  known.keys.flatMap fun name =>
    if name ∈ current then [] else [.remove name, .remove (learningKey name)]

/-- Where the loop of `Discovery::run` stands: before its tick, or in the middle of a scan. -/
inductive Scan where
  | waiting
  | sending (current : Table String Workspace) (rest : List SupervisorCmd)

structure ControlPlane where
  known : Table String Workspace
  scan : Scan
  workspaces : Nat
  scans : Nat
  queue : List SupervisorCmd
  supervisor : Supervisor

/-- The capacity of the channel of commands. -/
def commandCapacity : Nat := 64

inductive ControlEvent where
  | scanned (fs : Fs) (known current : Table String Workspace)
  | sent
  | published
  | received
  | supervised (e : SupervisorEvent)

namespace ControlPlane

def new (criticalThreshold : UInt32) (boot : List SourceDescriptor) : ControlPlane :=
  ⟨∅, .waiting, 0, 0, [], .new criticalThreshold boot⟩

def step (d : Discovery) (s : ControlPlane) : ControlEvent → Option ControlPlane
  | .scanned fs known current =>
    match s.scan with
    | .sending _ _ => none
    | .waiting =>
      if known.entries.Perm s.known.entries ∧
          current.entries.Perm (byName (discover fs d.dataRoot)).entries then
        some
          { s with
            known := known
            scan := .sending current (d.additions known current ++ removals known current) }
      else none
  | .sent =>
    match s.scan with
    | .sending current (cmd :: rest) =>
      if s.queue.length < commandCapacity then
        some { s with queue := s.queue ++ [cmd], scan := .sending current rest }
      else none
    | _ => none
  | .published =>
    match s.scan with
    | .sending current [] =>
      -- the `store` and the `fetch_add` as one; a reader on another thread may come between them
      some
        { s with
          workspaces := current.keys.length
          scans := (s.scans + 1) % 2 ^ 64
          known := current
          scan := .waiting }
    | _ => none
  | .received =>
    match s.queue with
    | [] => none
    | cmd :: queue =>
      (s.supervisor.step (.command cmd)).map fun supervisor =>
        { s with queue := queue, supervisor := supervisor }
  | .supervised (.command _) => none
  | .supervised e =>
    (s.supervisor.step e).map fun supervisor => { s with supervisor := supervisor }

/-- What the scan under way, or else the last one, found. -/
def target (s : ControlPlane) : Table String Workspace := match s.scan with
  | .waiting => s.known
  | .sending current _ => current

def unsent (s : ControlPlane) : List SupervisorCmd := match s.scan with
  | .waiting => []
  | .sending _ rest => rest

/-- What a step of the control plane can be. -/
inductive Act (d : Discovery) (s : ControlPlane) : ControlEvent → ControlPlane → Prop where
  | scanned (fs : Fs) (known current : Table String Workspace) (hScan : s.scan = .waiting)
      (hKnown : known.entries.Perm s.known.entries)
      (hCurrent : current.entries.Perm (byName (discover fs d.dataRoot)).entries) :
      Act d s (.scanned fs known current)
        { s with
          known := known
          scan := .sending current (d.additions known current ++ removals known current) }
  | sent (current : Table String Workspace) (cmd : SupervisorCmd) (rest : List SupervisorCmd)
      (hScan : s.scan = .sending current (cmd :: rest)) :
      Act d s .sent { s with queue := s.queue ++ [cmd], scan := .sending current rest }
  | published (current : Table String Workspace) (hScan : s.scan = .sending current []) :
      Act d s .published
        { s with
          workspaces := current.keys.length
          scans := (s.scans + 1) % 2 ^ 64
          known := current
          scan := .waiting }
  | received (cmd : SupervisorCmd) (queue : List SupervisorCmd) (supervisor : Supervisor)
      (hQueue : s.queue = cmd :: queue)
      (hStep : s.supervisor.step (.command cmd) = some supervisor) :
      Act d s .received { s with queue := queue, supervisor := supervisor }
  | supervised (e : SupervisorEvent) (supervisor : Supervisor) (hOther : ∀ cmd, e ≠ .command cmd)
      (hStep : s.supervisor.step e = some supervisor) :
      Act d s (.supervised e) { s with supervisor := supervisor }

theorem act_of_step {d : Discovery} {s s' : ControlPlane} {e : ControlEvent}
    (h : step d s e = some s') : Act d s e s' := by
  unfold step at h
  split at h
  case h_1 fs known current =>
    split at h
    · cases h
    · split_ifs at h with hPerm
      obtain rfl := Option.some.inj h
      exact .scanned fs known current ‹_› hPerm.1 hPerm.2
  case h_2 =>
    split at h
    · split_ifs at h
      obtain rfl := Option.some.inj h
      exact .sent _ _ _ ‹_›
    · cases h
  case h_3 =>
    split at h
    · obtain rfl := Option.some.inj h
      exact .published _ ‹_›
    · cases h
  case h_4 =>
    split at h
    · cases h
    · obtain ⟨supervisor, hStep, rfl⟩ := Option.map_eq_some_iff.mp h
      exact .received _ _ supervisor ‹_› hStep
  case h_5 => cases h
  case h_6 e hOther =>
    obtain ⟨supervisor, hStep, rfl⟩ := Option.map_eq_some_iff.mp h
    exact .supervised e supervisor hOther hStep

end ControlPlane

end HarnessSphere
