import HarnessSphere.Composition.Agreement
import HarnessSphere.Composition.Main
import HarnessSphere.Runtime.Parts

/-! # The whole program

`main` from its sources on: the watcher, and the discovery task with the channel of commands between
them. Here a command is received only after discovery has sent it, so that what was assumed of the
commands in the runs of the supervisor has to hold of every run.
-/

namespace HarnessSphere

open Machine

inductive DiscoveryEvent where
  | scanned (fs : Fs) (known current : Table String Workspace)
  | sent
  | published

def DiscoveryEvent.event : DiscoveryEvent → ControlEvent
  | scanned fs known current => .scanned fs known current
  | sent => .sent
  | published => .published

def DiscoveryEvent.sends : DiscoveryEvent → Bool
  | sent => true
  | _ => false

/-- From the end of a scan to the next tick, discovery does not wait. -/
def Scan.waits : Scan → Bool
  | .sending _ [] => false
  | _ => true

inductive ProgramEvent where
  | discovery (e : DiscoveryEvent)
  | stopped
  | received (cmd : SupervisorCmd)
  | watcher (e : WatcherEvent)

def ProgramEvent.runtime : ProgramEvent → Option WatcherEvent
  | received cmd => some (.process (.command cmd))
  | watcher e => some e
  | _ => none

def ProgramEvent.supervision (e : ProgramEvent) : Option ProcessEvent :=
  e.runtime.bind WatcherEvent.supervision

def ProgramEvent.control : ProgramEvent → Option ControlEvent
  | discovery e => some e.event
  | _ => none

/-- `ended` tells that the discovery task has come to its end. -/
structure Program where
  watcher : Watcher
  known : Table String Workspace
  scan : Scan
  workspaces : Nat
  scans : Nat
  queue : List SupervisorCmd
  ended : Bool

namespace Program

def new (st : Start) (capacity batchSize : Nat) : Program :=
  ⟨.new st.criticalThreshold (st.sources.map SignalSource.descriptor) capacity batchSize, ∅, .waiting,
    0, 0, [], false⟩

/-- Discovery and the supervisor as they face each other. -/
def plane (p : Program) : ControlPlane :=
  ⟨p.known, p.scan, p.workspaces, p.scans, p.queue, p.watcher.process.supervisor⟩

def withPlane (p : Program) (s : ControlPlane) : Program :=
  { p with
    known := s.known
    scan := s.scan
    workspaces := s.workspaces
    scans := s.scans
    queue := s.queue }

/-- With `run` the receiver of the commands is gone: discovery stops at a send that fails, or wherever
it waits when `main` aborts it. -/
def step (st : Start) (p : Program) : ProgramEvent → Option Program
  | .discovery e =>
    match st.discovery with
    | none => none
    | some (d, _) =>
      if p.ended ∨ e.sends ∧ p.watcher.process.stage.closed then none
      else (p.plane.step d e.event).map p.withPlane
  | .stopped =>
    if st.discovery.isSome ∧ p.ended = false ∧ p.watcher.process.stage.closed ∧ p.scan.waits then
      some { p with ended := true }
    else none
  | .received cmd =>
    match p.queue with
    | [] => none
    | head :: queue =>
      if head = cmd then
        (p.watcher.step (.process (.command cmd))).map fun w => { p with watcher := w, queue := queue }
      else none
  | .watcher (.process (.command _)) => none
  | .watcher e => (p.watcher.step e).map fun w => { p with watcher := w }

/-- What a step of the program can be. -/
inductive Act (st : Start) (p : Program) : ProgramEvent → Program → Prop where
  | discovery (d : Discovery) (interval : Duration) (e : DiscoveryEvent) (s : ControlPlane)
      (hDiscovery : st.discovery = some (d, interval)) (hRuns : p.ended = false)
      (hOpen : e.sends → p.watcher.process.stage.closed = false)
      (hAct : ControlPlane.Act d p.plane e.event s) : Act st p (.discovery e) (p.withPlane s)
  | stopped (hDiscovery : st.discovery.isSome) (hRuns : p.ended = false)
      (hClosed : p.watcher.process.stage.closed) (hWaits : p.scan.waits) :
      Act st p .stopped { p with ended := true }
  | received (cmd : SupervisorCmd) (queue : List SupervisorCmd) (w : Watcher)
      (hQueue : p.queue = cmd :: queue) (hStep : p.watcher.step (.process (.command cmd)) = some w) :
      Act st p (.received cmd) { p with watcher := w, queue := queue }
  | watcher (e : WatcherEvent) (w : Watcher) (hOther : ∀ cmd, e ≠ .process (.command cmd))
      (hStep : p.watcher.step e = some w) : Act st p (.watcher e) { p with watcher := w }

variable {st : Start} {p p' : Program} {e : ProgramEvent}

theorem act_of_step (h : p.step st e = some p') : Act st p e p' := by
  unfold step at h
  split at h
  case h_1 e =>
    split at h
    · cases h
    · rename_i d interval hDiscovery
      split_ifs at h with hNot
      obtain ⟨s, hStep, rfl⟩ := Option.map_eq_some_iff.mp h
      obtain ⟨hRuns, hOpen⟩ := not_or.mp hNot
      refine .discovery d interval e s hDiscovery (by simpa using hRuns) (fun hSends => ?_)
        (ControlPlane.act_of_step hStep)
      simpa using fun hClosed => hOpen ⟨hSends, hClosed⟩
  case h_2 =>
    split_ifs at h with hEnd
    obtain rfl := Option.some.inj h
    exact .stopped hEnd.1 hEnd.2.1 hEnd.2.2.1 hEnd.2.2.2
  case h_3 =>
    split at h
    · cases h
    · split_ifs at h with hHead
      subst hHead
      obtain ⟨w, hStep, rfl⟩ := Option.map_eq_some_iff.mp h
      exact .received _ _ w ‹_› hStep
  case h_4 => cases h
  case h_5 e hOther =>
    obtain ⟨w, hStep, rfl⟩ := Option.map_eq_some_iff.mp h
    exact .watcher e w hOther hStep

/-- Discovery leaves the supervisor alone. -/
theorem plane_withPlane {d : Discovery} {e : DiscoveryEvent} {s : ControlPlane}
    (hAct : ControlPlane.Act d p.plane e.event s) : (p.withPlane s).plane = s := by
  cases e with
  | scanned | sent | published =>
    cases hAct
    rfl

/-- Every probe is that of the source behind its task. -/
def probes (st : Start) (p : Program) : ProgramEvent → Prop
  | .watcher (.process (.task i (.probed r))) => ∀ t, p.watcher.process.supervisor.tasks[i]? = some t →
    ∃ s world, Process.Behind st (Process.source t) s ∧ r = s.probe world
  | _ => True

/-- A command that comes from the discovery of the program. -/
def Issued (st : Start) (cmd : SupervisorCmd) : Prop := ∀ q, Process.drives st q (.command cmd)

/-- What is on its way comes from discovery, and what it knows is filed under its name. -/
structure Provided (st : Start) (p : Program) : Prop where
  known : Keyed p.known
  target : Keyed p.plane.target
  commands : ∀ cmd ∈ p.queue ++ p.plane.unsent, Issued st cmd

theorem provided_new (st : Start) (capacity batchSize : Nat) : Provided st (new st capacity batchSize) where
  known name w h := by cases h
  target name w h := by cases h
  commands cmd h := by cases h

theorem issued_of_mem {d : Discovery} {interval : Duration} (hDiscovery : st.discovery = some (d, interval))
    {known current : Table String Workspace} (hKnown : Keyed known) {cmd : SupervisorCmd}
    (h : cmd ∈ d.additions known current ++ removals known current) : Issued st cmd := by
  intro q
  obtain hAdded | hRemoved := List.mem_append.mp h
  · obtain ⟨⟨name, w⟩, -, hCmd⟩ := List.mem_flatMap.mp hAdded
    dsimp only at hCmd
    split at hCmd
    · cases hCmd
    · have hBehind {s : SignalSource} (hs : Process.Discovered d s) :
          Process.drives st q (.command (.add s.descriptor)) :=
        ⟨s, rfl, .inr ⟨rfl, (d, interval), hDiscovery, hs⟩⟩
      simp only [List.mem_cons, List.not_mem_nil, or_false] at hCmd
      obtain rfl | rfl := hCmd
      · exact hBehind (.inl ⟨w, rfl⟩)
      · exact hBehind (.inr ⟨w, rfl⟩)
  · obtain ⟨name, hName, hCmd⟩ := List.mem_flatMap.mp hRemoved
    obtain ⟨w, hLookup⟩ := Option.isSome_iff_exists.mp (AList.lookup_isSome.mpr (AList.mem_keys.mpr hName))
    have hIssued : st.discovery.isSome := by rw [hDiscovery]; rfl
    split at hCmd
    · cases hCmd
    · rw [hKnown name w hLookup] at hCmd
      simp only [List.mem_cons, List.not_mem_nil, or_false] at hCmd
      obtain rfl | rfl := hCmd
      · exact ⟨hIssued, w, .inl rfl⟩
      · exact ⟨hIssued, w, .inr rfl⟩

theorem provided_of_act (hAct : Act st p e p') (h : Provided st p) : Provided st p' := by
  have hTarget := h.target
  have hCommands := h.commands
  cases hAct with
  | discovery d interval e s hDiscovery hRuns hOpen hAct =>
    suffices hSame : Keyed s.known ∧ Keyed s.target ∧ ∀ cmd ∈ s.queue ++ s.unsent, Issued st cmd by
      rw [← plane_withPlane hAct] at hSame
      exact ⟨hSame.1, hSame.2.1, hSame.2.2⟩
    cases e with
    | scanned fs known current =>
      cases hAct with
      | scanned _ _ _ hScan hKnown hCurrent =>
        have hKeyed : Keyed known := h.known.of_perm hKnown
        refine ⟨hKeyed, (keyed_byName _).of_perm hCurrent, fun cmd hCmd => ?_⟩
        obtain hOld | hNew := List.mem_append.mp hCmd
        · exact hCommands cmd (List.mem_append_left _ hOld)
        · exact issued_of_mem hDiscovery hKeyed hNew
    | sent =>
      cases hAct with
      | sent current cmd rest hScan =>
        rw [ControlPlane.target, hScan] at hTarget
        rw [ControlPlane.unsent, hScan, List.append_cons] at hCommands
        exact ⟨h.known, hTarget, hCommands⟩
    | published =>
      cases hAct with
      | published current hScan =>
        rw [ControlPlane.target, hScan] at hTarget
        rw [ControlPlane.unsent, hScan] at hCommands
        exact ⟨hTarget, hTarget, hCommands⟩
  | received cmd queue w hQueue hStep =>
    refine ⟨h.known, hTarget, fun cmd' hCmd' => hCommands cmd' ?_⟩
    rw [hQueue]
    exact List.mem_cons_of_mem _ hCmd'
  | stopped | watcher => exact ⟨h.known, hTarget, hCommands⟩

theorem run_watcher {ok : Program → ProgramEvent → Prop} {events : List ProgramEvent}
    (hRun : Run (step st) ok p events p') :
    Run Watcher.step Any p.watcher (events.filterMap ProgramEvent.runtime) p'.watcher := by
  have hSome (p : Program) (e : ProgramEvent) (p' : Program) (e' : WatcherEvent) (_ : ok p e)
      (hStep : p.step st e = some p') (hRuntime : e.runtime = some e') :
      Any p.watcher e' ∧ p.watcher.step e' = some p'.watcher := by
    cases act_of_step hStep with
    | discovery | stopped => cases hRuntime
    | received cmd queue w hQueue hStep' | watcher e w hOther hStep' =>
      cases hRuntime
      exact ⟨trivial, hStep'⟩
  have hNone (p : Program) (e : ProgramEvent) (p' : Program) (_ : ok p e)
      (hStep : p.step st e = some p') (hRuntime : e.runtime = none) : p'.watcher = p.watcher := by
    cases act_of_step hStep with
    | discovery | stopped => rfl
    | received | watcher => cases hRuntime
  exact hRun.simulate hSome hNone

/-- What a step of the program is to the process: its own, a command of discovery, or nothing. -/
theorem drives_of_act (hAct : Act st p e p') (hProvided : Provided st p) (hProbes : probes st p e)
    {e' : ProcessEvent} (hSupervision : e.supervision = some e') :
    Process.drives st p.watcher.process e' := by
  cases hAct with
  | discovery | stopped => cases hSupervision
  | received cmd queue w hQueue hStep =>
    cases hSupervision
    exact hProvided.commands cmd (by simp [hQueue]) p.watcher.process
  | watcher e w hOther hStep =>
    cases e with
    | drain e => cases hSupervision
    | process e' =>
      cases hSupervision
      cases e' with
      | command cmd => exact absurd rfl (hOther cmd)
      | task i e =>
        cases e with
        | probed r => exact hProbes
        | _ => trivial
      | _ => trivial

theorem run_process {capacity batchSize : Nat} {events : List ProgramEvent}
    (hRun : Run (step st) (probes st) (new st capacity batchSize) events p) :
    Run Process.step (Process.drives st) (Process.ofStart st)
      (events.filterMap ProgramEvent.supervision) p.watcher.process := by
  have hProvided : Run (step st) (fun p e => Provided st p ∧ probes st p e) (new st capacity batchSize)
      events p := by
    refine (run_congr (provided_new st capacity batchSize) ?_ ?_).mp hRun
    · exact fun _ _ _ h _ hStep => provided_of_act (act_of_step hStep) h
    · exact fun _ _ h => (and_iff_right h).symm
  have hSome (p : Program) (e : ProgramEvent) (p' : Program) (e' : ProcessEvent)
      (hOk : Provided st p ∧ probes st p e) (hStep : p.step st e = some p')
      (hSupervision : e.supervision = some e') :
      Process.drives st p.watcher.process e' ∧
        p.watcher.process.step e' = some p'.watcher.process := by
    have hAct := act_of_step hStep
    refine ⟨drives_of_act hAct hOk.1 hOk.2 hSupervision, ?_⟩
    cases hAct with
    | discovery | stopped => cases hSupervision
    | received cmd queue w hQueue hStep' =>
      cases hSupervision
      obtain ⟨q, hProcess, rfl⟩ := Option.map_eq_some_iff.mp hStep'
      exact hProcess
    | watcher e w hOther hStep' =>
      cases e with
      | drain e => cases hSupervision
      | process e =>
        cases hSupervision
        obtain ⟨q, hProcess, rfl⟩ := Option.map_eq_some_iff.mp hStep'
        exact hProcess
  have hNone (p : Program) (e : ProgramEvent) (p' : Program) (_ : Provided st p ∧ probes st p e)
      (hStep : p.step st e = some p') (hSupervision : e.supervision = none) :
      p'.watcher.process = p.watcher.process := by
    cases act_of_step hStep with
    | discovery | stopped => rfl
    | received => cases hSupervision
    | watcher e w hOther hStep' =>
      cases e with
      | process e => cases hSupervision
      | drain e =>
        obtain ⟨q, -, rfl⟩ := Option.map_eq_some_iff.mp hStep'
        rfl
  exact hProvided.simulate hSome hNone

end Program

namespace Process

variable {p p' : Process} {e : ProcessEvent}

/-- A shutdown is never called off. -/
theorem running_of_act (hAct : Act p e p') (hRunning' : p'.stage = .running) : p.stage = .running := by
  cases hAct with
  | spawnBoot s hRunning | command cmd s hRunning | joined s hRunning | timedOut r hRunning => exact hRunning
  | aborts name result i hStage hName =>
    rw [stage_abort] at hRunning'
    cases hRunning'
  | fatalReceived | ctrlC | drops | drained | returned => cases hRunning'
  | _ => exact hRunning'

/-- While it runs, the registry changes by commands and, at the boot, by sources of `main` only. -/
theorem registered_eq_of_step (hStep : p.step e = some p') (hOther : ∀ cmd, e ≠ .command cmd)
    (hRunning' : p'.stage = .running) (hBoot : ∀ desc ∈ p.supervisor.boot, desc.name ∈ bootNames) :
    p'.supervisor.registered = p.supervisor.registered ∧
      ∀ desc ∈ p'.supervisor.boot, desc.name ∈ bootNames := by
  cases act_of_step hStep with
  | spawnBoot _ hRunning | joined _ hRunning =>
    obtain ⟨-, s, hSupervisor, hTo⟩ := supervise_eq_some hStep
    rw [hTo]
    exact Supervisor.registered_other hSupervisor nofun hBoot
  | command cmd => exact absurd rfl (hOther cmd)
  | timedOut r hRunning hRemoval hUnfinished =>
    unfold abort
    split_ifs <;> exact ⟨rfl, hBoot⟩
  | aborts name result i hStage hName =>
    rw [stage_abort] at hRunning'
    cases hRunning'
  | fatalReceived | ctrlC | drops | drained | returned => cases hRunning'
  | _ => exact ⟨rfl, hBoot⟩

end Process

/-- Of the supervisor, an agreement sees the registered names and the sources it has still to spawn. -/
theorem ControlPlane.Agrees.congr {s : ControlPlane} (h : s.Agrees) {supervisor : Supervisor}
    (hRegistered : supervisor.registered = s.supervisor.registered)
    (hBoot : ∀ desc ∈ supervisor.boot, desc.name ∈ bootNames) :
    ControlPlane.Agrees { s with supervisor := supervisor } :=
  ⟨h.known, h.target, hBoot, h.commands, hRegistered ▸ h.replay⟩

namespace Program

variable {st : Start} {p p' : Program} {e : ProgramEvent}

theorem agrees_of_act (hAct : Act st p e p')
    (h : p.watcher.process.stage = .running → p.plane.Agrees)
    (hRunning' : p'.watcher.process.stage = .running) : p'.plane.Agrees := by
  cases hAct with
  | discovery d interval e s hDiscovery hRuns hOpen hAct =>
    rw [plane_withPlane hAct]
    exact ControlPlane.agrees_of_act hAct (h hRunning')
  | stopped => exact h hRunning'
  | received cmd queue w hQueue hStep =>
    obtain ⟨q, hProcess, rfl⟩ := Option.map_eq_some_iff.mp hStep
    obtain ⟨hRunning, s, hSupervisor, rfl⟩ := Process.supervise_eq_some hProcess
    have hReceived : ControlPlane.Act ⟨[], 0, 0, ""⟩ p.plane .received
        { p.plane with queue := queue, supervisor := s } := .received cmd queue s hQueue hSupervisor
    exact ControlPlane.agrees_of_act hReceived (h hRunning)
  | watcher e w hOther hStep =>
    cases e with
    | drain e =>
      obtain ⟨q, -, rfl⟩ := Option.map_eq_some_iff.mp hStep
      exact h hRunning'
    | process e =>
      obtain ⟨q, hProcess, rfl⟩ := Option.map_eq_some_iff.mp hStep
      have hAgrees := h (Process.running_of_act (Process.act_of_step hProcess) hRunning')
      obtain ⟨hRegistered, hBoot⟩ := Process.registered_eq_of_step hProcess
        (fun cmd hEvent => hOther cmd (congrArg _ hEvent)) hRunning' hAgrees.boot
      exact hAgrees.congr hRegistered hBoot

/-- What discovery has found comes from its last scan, and so does what it has published. -/
structure Finds (d : Discovery) (events : List ProgramEvent) (p : Program) : Prop where
  target : ∀ fs ∈ lastScan (events.filterMap ProgramEvent.control),
    p.plane.target.entries.Perm (byName (discover fs d.dataRoot)).entries
  published : p.scan = .waiting → p.workspaces = p.plane.target.keys.length

theorem finds_of_act {d : Discovery} {interval : Duration} {events : List ProgramEvent}
    (hDiscovery : st.discovery = some (d, interval)) (hAct : Act st p e p') (h : Finds d events p) :
    Finds d (events ++ [e]) p' := by
  have hTarget := h.target
  cases hAct with
  | discovery d' interval' e s hDiscovery' hRuns hOpen hAct =>
    obtain ⟨rfl, -⟩ := Prod.mk.inj (Option.some.inj (hDiscovery.symm.trans hDiscovery'))
    have hLabels : (events ++ [ProgramEvent.discovery e]).filterMap ProgramEvent.control =
        events.filterMap ProgramEvent.control ++ [e.event] := List.filterMap_append
    suffices hFound : (∀ fs ∈ lastScan (events.filterMap ProgramEvent.control ++ [e.event]),
        s.target.entries.Perm (byName (discover fs d.dataRoot)).entries) ∧
        (s.scan = .waiting → s.workspaces = s.target.keys.length) by
      rw [← hLabels, ← plane_withPlane hAct] at hFound
      exact ⟨hFound.1, hFound.2⟩
    cases e with
    | scanned fs known current =>
      cases hAct with
      | scanned _ _ _ hScan hKnown hCurrent =>
        refine ⟨fun fs' hLast => ?_, fun hWaiting => by cases hWaiting⟩
        rw [lastScan_concat] at hLast
        obtain rfl := Option.some.inj hLast
        exact hCurrent
    | sent =>
      cases hAct with
      | sent current cmd rest hScan =>
        rw [ControlPlane.target, hScan] at hTarget
        refine ⟨?_, fun hWaiting => by cases hWaiting⟩
        rw [lastScan_other rfl]
        exact hTarget
    | published =>
      cases hAct with
      | published current hScan =>
        rw [ControlPlane.target, hScan] at hTarget
        refine ⟨?_, fun _ => rfl⟩
        rw [lastScan_other rfl]
        exact hTarget
  | received | stopped | watcher =>
    refine ⟨?_, h.published⟩
    rw [List.filterMap_append, List.filterMap_cons_none rfl, List.filterMap_nil, List.append_nil]
    exact hTarget

theorem name_of_boot {pid : Except String UInt32} {otlp : Option (Settings → Except String Unit)}
    {cfg : Settings} (hStart : Start.start pid otlp cfg = .ok st) :
    ∀ desc ∈ st.sources.map SignalSource.descriptor, desc.name ∈ bootNames :=
  fun _ => name_of_mem_sources (Start.sources_of_start hStart)

theorem agrees_of_run {pid : Except String UInt32} {otlp : Option (Settings → Except String Unit)}
    {cfg : Settings} (hStart : Start.start pid otlp cfg = .ok st) {capacity batchSize : Nat}
    {ok : Program → ProgramEvent → Prop} {events : List ProgramEvent}
    (hRun : Run (step st) ok (new st capacity batchSize) events p)
    (hRunning : p.watcher.process.stage = .running) : p.plane.Agrees :=
  hRun.invariant (I := fun p => p.watcher.process.stage = .running → p.plane.Agrees)
    (fun _ => ControlPlane.agrees_new (name_of_boot hStart))
    (fun _ _ _ h _ hStep => agrees_of_act (act_of_step hStep) h) hRunning

theorem finds_of_run {d : Discovery} {interval : Duration}
    (hDiscovery : st.discovery = some (d, interval)) {capacity batchSize : Nat}
    {ok : Program → ProgramEvent → Prop} {events : List ProgramEvent}
    (hRun : Run (step st) ok (new st capacity batchSize) events p) : Finds d events p :=
  hRun.history (I := Finds d) ⟨by simp [lastScan], fun _ => rfl⟩
    fun _ _ _ _ h _ hStep => finds_of_act hDiscovery (act_of_step hStep) h

/-- Every run of the program is a run of the watcher, and of the supervisor with its tasks under just
what was assumed of them; and as long as it runs, the commands that discovery has sent and has still to
send lead from the names in the registry to those of the last scan. -/
theorem the_program_refines_its_parts (pid : Except String UInt32)
    (otlp : Option (Settings → Except String Unit)) (cfg : Settings) (st : Start)
    (hStart : Start.start pid otlp cfg = .ok st) (capacity batchSize : Nat)
    (events : List ProgramEvent) (p : Program)
    (hRun : Run (step st) (probes st) (new st capacity batchSize) events p) :
    Run Watcher.step Any
      (.new st.criticalThreshold (st.sources.map SignalSource.descriptor) capacity batchSize)
      (events.filterMap ProgramEvent.runtime) p.watcher ∧
    Run Process.step (Process.drives st) (Process.ofStart st)
      (events.filterMap ProgramEvent.supervision) p.watcher.process ∧
    (p.watcher.process.stage = .running → ∀ d interval, st.discovery = some (d, interval) →
      ∀ fs, lastScan (events.filterMap ProgramEvent.control) = some fs →
        exec Edit.step p.watcher.process.supervisor.registered
          ((p.queue ++ p.plane.unsent).map SupervisorCmd.edit) =
          some (watched (discover fs d.dataRoot))) := by
  refine ⟨run_watcher hRun, run_process hRun, fun hRunning d interval hDiscovery fs hLast => ?_⟩
  have hTarget := (finds_of_run hDiscovery hRun).target fs hLast
  rw [← names_byName, ← names_of_perm hTarget]
  exact (agrees_of_run hStart hRun hRunning).replay

section Sample

/-- What `main` comes to with a data root and nothing else. -/
def rootedStart : Start where
  sources := [.host (.new 5), .self ⟨⟨"self", .watcher, .critical, 10⟩, 7⟩, .discovery (.new 10)]
  exporter := .stdout
  criticalThreshold := 3
  discovery := some (sampleDiscovery, 30)

def rootedSettings : Settings := { Settings.default with dataRoot := "/data" }

theorem start_rooted : Start.start (.ok 7) none rootedSettings = .ok rootedStart := rfl

/-- Of the two commands for a workspace, one has been sent. -/
def halfSent : List ProgramEvent :=
  [.watcher (.process .spawnBoot), .discovery (.scanned (sampleDisk []).fs ∅ (byName [sampleWorkspace])),
    .watcher (.process .spawnBoot), .discovery .sent]

theorem run_of_silent {st : Start} {p p' : Program} {events : List ProgramEvent}
    (h : exec (step st) p events = some p')
    (hSilent : ∀ e ∈ events, ∀ i r, e ≠ .watcher (.process (.task i (.probed r)))) :
    Run (step st) (probes st) p events p' := by
  refine (run_of_exec h).of_labels fun e he q => ?_
  unfold probes
  split
  · exact absurd rfl (hSilent _ he _ _)
  · trivial

theorem commands_on_their_way_lead_to_the_workspace : ∃ p : Program,
    exec (step rootedStart) (new rootedStart 4096 512) halfSent = some p ∧
    exec Edit.step p.watcher.process.supervisor.registered
      ((p.queue ++ p.plane.unsent).map SupervisorCmd.edit) =
      some (watched (discover (sampleDisk []).fs sampleDiscovery.dataRoot)) := by
  have hSome : ((exec (step rootedStart) (new rootedStart 4096 512) halfSent).map fun p =>
      p.watcher.process.stage) = some .running := by decide
  obtain ⟨p, hExec, hRunning⟩ := Option.map_eq_some_iff.mp hSome
  have hRun : Run (step rootedStart) (probes rootedStart) (new rootedStart 4096 512) halfSent p :=
    run_of_silent hExec (by simp [halfSent])
  exact ⟨p, hExec, (the_program_refines_its_parts (.ok 7) none rootedSettings rootedStart start_rooted
    4096 512 halfSent p hRun).2.2 hRunning sampleDiscovery 30 rfl (sampleDisk []).fs rfl⟩

end Sample

end Program

end HarnessSphere
