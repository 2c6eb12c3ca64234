import HarnessSphere.Library.Machine
import HarnessSphere.Library.Table
import HarnessSphere.Runtime.Task

/-! # The supervisor before shutdown

The loop of `Supervisor::run` with every task it ever spawned. The registry maps a name to the number
of the task that holds its handle. While a removal is pending the supervisor only waits for the task
to end or for its own deadline. Receiving a fatal signal or Ctrl-C ends the part that is modelled here.
-/

namespace HarnessSphere

open Machine

inductive SupervisorCmd where
  | add (desc : SourceDescriptor)
  | remove (name : String)
  deriving DecidableEq, Repr

structure Removal where
  task : Nat
  deadline : Nat
  deriving DecidableEq, Repr

def retireTimeout : Nat := 5

def fatalCapacity : Nat := 4

inductive SupervisorEvent where
  | spawnBoot
  | command (cmd : SupervisorCmd)
  | joined
  | timedOut
  | task (i : Nat) (e : TaskEvent)
  | advance
  deriving DecidableEq, Repr

structure Supervisor where
  criticalThreshold : UInt32
  now : Nat
  boot : List SourceDescriptor
  tasks : List Task
  registry : Table String Nat
  removal : Option Removal
  fatal : List FatalSignal

namespace Supervisor

def new (criticalThreshold : UInt32) (boot : List SourceDescriptor) : Supervisor :=
  ⟨criticalThreshold, 0, boot, [], ∅, none, []⟩

def spawnSource (s : Supervisor) (desc : SourceDescriptor) (origin : Origin) : Supervisor :=
  if desc.name ∈ s.registry then s
  else
    { s with
      tasks := s.tasks ++ [.spawn desc origin s.criticalThreshold]
      registry := s.registry.insert desc.name s.tasks.length }

/-- `retire_source` up to its await: the handle leaves the registry, the stop is sent. -/
def retireSource (s : Supervisor) (name : String) : Supervisor :=
  match s.registry.lookup name with
  | none => s
  | some i =>
    { s with
      registry := s.registry.erase name
      tasks := s.tasks.modify i fun t => { t with stop := .sent }
      removal := some ⟨i, s.now + retireTimeout⟩ }

def command (s : Supervisor) : SupervisorCmd → Supervisor
  | .add desc => s.spawnSource desc .discovered
  | .remove name => s.retireSource name

def finished (s : Supervisor) (i : Nat) : Bool := ((s.tasks[i]?).map Task.finished).getD true

def fatalRoom (s : Supervisor) : Bool := s.fatal.length < fatalCapacity

def step (s : Supervisor) : SupervisorEvent → Option Supervisor
  | .spawnBoot =>
    match s.boot with
    | [] => none
    | desc :: boot => some ({ s with boot := boot }.spawnSource desc .boot)
  | .command cmd => if s.boot = [] ∧ s.removal = none then some (s.command cmd) else none
  | .joined =>
    match s.removal with
    | none => none
    | some r => if s.finished r.task then some { s with removal := none } else none
  | .timedOut =>
    match s.removal with
    | none => none
    | some r =>
      if r.deadline ≤ s.now ∧ s.finished r.task = false then
        some
          { s with
            removal := none
            tasks := s.tasks.modify r.task fun t => { t with point := .ended .aborted } }
      else none
  | .task i e =>
    match s.tasks[i]? with
    | none => none
    | some t =>
      match t.step s.now s.fatalRoom e with
      | none => none
      | some (t', fatal) =>
        some { s with tasks := s.tasks.set i t', fatal := s.fatal ++ fatal.toList }
  | .advance => some { s with now := s.now + 1 }

inductive Act (s : Supervisor) : SupervisorEvent → Supervisor → Prop where
  | bootDuplicate (desc : SourceDescriptor) (boot : List SourceDescriptor)
      (hBoot : s.boot = desc :: boot) (hName : desc.name ∈ s.registry) :
      Act s .spawnBoot { s with boot := boot }
  | bootSpawned (desc : SourceDescriptor) (boot : List SourceDescriptor)
      (hBoot : s.boot = desc :: boot) (hName : desc.name ∉ s.registry) :
      Act s .spawnBoot
        { s with
          boot := boot
          tasks := s.tasks ++ [.spawn desc .boot s.criticalThreshold]
          registry := s.registry.insert desc.name s.tasks.length }
  | addDuplicate (desc : SourceDescriptor) (hIdle : s.boot = [] ∧ s.removal = none)
      (hName : desc.name ∈ s.registry) : Act s (.command (.add desc)) s
  | added (desc : SourceDescriptor) (hIdle : s.boot = [] ∧ s.removal = none)
      (hName : desc.name ∉ s.registry) :
      Act s (.command (.add desc))
        { s with
          tasks := s.tasks ++ [.spawn desc .discovered s.criticalThreshold]
          registry := s.registry.insert desc.name s.tasks.length }
  | removeMissing (name : String) (hIdle : s.boot = [] ∧ s.removal = none)
      (hName : s.registry.lookup name = none) : Act s (.command (.remove name)) s
  | removed (name : String) (i : Nat) (hIdle : s.boot = [] ∧ s.removal = none)
      (hName : s.registry.lookup name = some i) :
      Act s (.command (.remove name))
        { s with
          registry := s.registry.erase name
          tasks := s.tasks.modify i fun t => { t with stop := .sent }
          removal := some ⟨i, s.now + retireTimeout⟩ }
  | joined (r : Removal) (hRemoval : s.removal = some r) (hFinished : s.finished r.task) :
      Act s .joined { s with removal := none }
  | timedOut (r : Removal) (hRemoval : s.removal = some r) (hDeadline : r.deadline ≤ s.now)
      (hUnfinished : s.finished r.task = false) :
      Act s .timedOut
        { s with
          removal := none
          tasks := s.tasks.modify r.task fun t => { t with point := .ended .aborted } }
  | task (i : Nat) (e : TaskEvent) (t t' : Task) (fatal : Option FatalSignal)
      (hTask : s.tasks[i]? = some t) (hStep : t.step s.now s.fatalRoom e = some (t', fatal)) :
      Act s (.task i e) { s with tasks := s.tasks.set i t', fatal := s.fatal ++ fatal.toList }
  | advance : Act s .advance { s with now := s.now + 1 }

theorem act_of_step {s s' : Supervisor} {e : SupervisorEvent} (h : s.step e = some s') :
    Act s e s' := by
  cases e with
  | spawnBoot =>
    unfold step at h
    dsimp only at h
    split at h
    · cases h
    · rename_i desc boot hBoot
      obtain rfl := Option.some.inj h
      unfold spawnSource
      split
      · exact .bootDuplicate desc boot hBoot ‹_›
      · exact .bootSpawned desc boot hBoot ‹_›
  | command cmd =>
    simp only [step, Option.ite_none_right_eq_some, Option.some.injEq] at h
    obtain ⟨hIdle, rfl⟩ := h
    cases cmd with
    | add desc =>
      unfold command spawnSource
      dsimp only
      split
      · exact .addDuplicate desc hIdle ‹_›
      · exact .added desc hIdle ‹_›
    | remove name =>
      unfold command retireSource
      dsimp only
      split
      · exact .removeMissing name hIdle ‹_›
      · exact .removed name _ hIdle ‹_›
  | joined =>
    unfold step at h
    dsimp only at h
    split at h
    · cases h
    · split_ifs at h with hFinished
      obtain rfl := Option.some.inj h
      exact .joined _ ‹_› hFinished
  | timedOut =>
    unfold step at h
    dsimp only at h
    split at h
    · cases h
    · split_ifs at h with hOverrun
      obtain rfl := Option.some.inj h
      exact .timedOut _ ‹_› hOverrun.1 hOverrun.2
  | task i e =>
    unfold step at h
    dsimp only at h
    split at h
    · cases h
    · split at h
      · cases h
      · obtain rfl := Option.some.inj h
        exact .task i e _ _ _ ‹_› ‹_›
  | advance =>
    cases h
    exact .advance

inductive Evolves (t : Task) : Task → Prop where
  | same : Evolves t t
  | stopped : Evolves t { t with stop := .sent }
  | aborted (hUnfinished : t.finished = false) : Evolves t { t with point := .ended .aborted }
  | moved (now : Nat) (room : Bool) (e : TaskEvent) (t' : Task) (fatal : Option FatalSignal)
      (hStep : t.step now room e = some (t', fatal)) : Evolves t t'

theorem Evolves.desc {t t' : Task} (h : Evolves t t') : t'.desc = t.desc := by
  cases h with
  | moved now room e _ fatal hStep => exact (Task.step_spec hStep).1.desc
  | _ => rfl

theorem Evolves.of_finished {t t' : Task} (h : Evolves t t') (hFinished : t.finished) :
    t'.finished ∧ t'.sent = t.sent := by
  cases h with
  | same => exact ⟨hFinished, rfl⟩
  | stopped => exact ⟨hFinished, rfl⟩
  | aborted _ => exact ⟨rfl, rfl⟩
  | moved now room e _ fatal hStep =>
    rw [Task.not_step_of_finished hFinished] at hStep
    cases hStep

/-- Tasks are only ever added, and each of the others evolves. -/
theorem evolves_of_act {s s' : Supervisor} {e : SupervisorEvent} (h : Act s e s') {i : Nat} {t : Task}
    (hTask : s.tasks[i]? = some t) : ∃ t', s'.tasks[i]? = some t' ∧ Evolves t t' := by
  have hLt : i < s.tasks.length := (List.getElem?_eq_some_iff.mp hTask).1
  cases h with
  | bootSpawned desc boot hBoot hName | added desc hIdle hName =>
    exact ⟨t, (List.getElem?_append_left hLt).trans hTask, .same⟩
  | removed name j hIdle hName =>
    obtain rfl | hij := eq_or_ne j i
    · exact ⟨_, by rw [List.getElem?_modify_eq, hTask]; rfl, .stopped⟩
    · exact ⟨t, by rw [List.getElem?_modify_ne _ _ hij]; exact hTask, .same⟩
  | timedOut r hRemoval hDeadline hUnfinished =>
    obtain rfl | hij := eq_or_ne r.task i
    · refine ⟨_, by rw [List.getElem?_modify_eq, hTask]; rfl, .aborted ?_⟩
      simpa [finished, hTask] using hUnfinished
    · exact ⟨t, by rw [List.getElem?_modify_ne _ _ hij]; exact hTask, .same⟩
  | task j e u u' fatal hTask' hStep =>
    obtain rfl | hij := eq_or_ne j i
    · obtain rfl := Option.some.inj (hTask.symm.trans hTask')
      exact ⟨u', List.getElem?_set_self hLt, .moved _ _ _ _ _ hStep⟩
    · exact ⟨t, by rw [List.getElem?_set_ne hij]; exact hTask, .same⟩
  | _ => exact ⟨t, hTask, .same⟩

theorem origin_of_act {s s' : Supervisor} {e : SupervisorEvent} (h : Act s e s') {i : Nat} {t' : Task}
    (hTask : s'.tasks[i]? = some t') :
    (∃ t, s.tasks[i]? = some t ∧ Evolves t t') ∨
      i = s.tasks.length ∧ ∃ desc origin, t' = .spawn desc origin s.criticalThreshold ∧
        s'.registry.lookup desc.name = some i := by
  cases hOld : s.tasks[i]? with
  | some t =>
    obtain ⟨u, hu, hEvolves⟩ := evolves_of_act h hOld
    obtain rfl := Option.some.inj (hu.symm.trans hTask)
    exact .inl ⟨t, rfl, hEvolves⟩
  | none =>
    have hLength := List.getElem?_eq_none_iff.mp hOld
    have hSame {tasks : List Task} (hTasks : tasks.length = s.tasks.length)
        (hSome : tasks[i]? = some t') : False := by
      have hLt := (List.getElem?_eq_some_iff.mp hSome).1
      omega
    right
    cases h with
    | bootSpawned desc boot hBoot hName | added desc hIdle hName =>
      have hLt := (List.getElem?_eq_some_iff.mp hTask).1
      simp only [List.length_append, List.length_singleton] at hLt
      obtain rfl : i = s.tasks.length := by omega
      dsimp only at hTask
      rw [List.getElem?_concat_length] at hTask
      exact ⟨rfl, desc, _, (Option.some.inj hTask).symm, AList.lookup_insert _⟩
    | removed name j hIdle hName | timedOut r hRemoval hDeadline hUnfinished =>
      exact (hSame (List.length_modify _ _ _) hTask).elim
    | task j e u u' fatal hTask' hStep => exact (hSame List.length_set hTask).elim
    | _ => exact (hSame rfl hTask).elim

end Supervisor

end HarnessSphere
