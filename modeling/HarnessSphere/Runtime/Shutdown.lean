import HarnessSphere.Runtime.OneWriter

/-! # The whole run of the supervisor

`Supervisor::run` to its return: the loop, the shutdown that empties the registry, the wait for the
drain. A task runs in polls. An abort that finds it between two polls ends it at once; one that finds
it in the middle of a poll waits until it yields, and what it does before that still happens.
-/

namespace HarnessSphere

open Machine

/-- Where `run` stands. While the registry is drained, each handle is aborted and then goes out of
scope, which drops its stop sender. -/
inductive Stage where
  | running
  | aborting (result : Except FatalSignal Unit)
  | dropping (result : Except FatalSignal Unit) (task : Nat)
  | flushing (result : Except FatalSignal Unit)
  | returned (result : Except FatalSignal Unit)
  deriving DecidableEq

/-- With `run` the receiver of fatal signals is gone. -/
def Stage.closed : Stage → Bool
  | .returned _ => true
  | _ => false

def Stage.drained : Stage → Bool
  | .flushing _ | .returned _ => true
  | _ => false

theorem Stage.drained_of_closed {stage : Stage} (h : stage.closed) : stage.drained := by
  cases stage <;> first | rfl | cases h

inductive ProcessEvent where
  | spawnBoot
  | command (cmd : SupervisorCmd)
  | joined
  | timedOut
  | advance
  | polled (i : Nat)
  | task (i : Nat) (e : TaskEvent)
  | yielded (i : Nat)
  | fatalReceived
  | ctrlC
  | aborts (name : String)
  | drops
  | drained
  | returned
  deriving DecidableEq, Repr

/-- `busy` are the tasks in the middle of a poll, `condemned` those of them that were aborted,
`shutDown` the tasks the shutdown has aborted, and `sent` the fatal signals that entered the channel,
with the task each came from. -/
structure Process where
  supervisor : Supervisor
  stage : Stage
  busy : List Nat
  condemned : List Nat
  shutDown : List Nat
  sent : List (Nat × FatalSignal)

def Task.abort (t : Task) : Task := if t.finished then t else { t with point := .ended .aborted }

def Supervisor.abort (s : Supervisor) (i : Nat) : Supervisor :=
  { s with tasks := s.tasks.modify i Task.abort }

namespace Process

def new (criticalThreshold : UInt32) (boot : List SourceDescriptor) : Process :=
  ⟨.new criticalThreshold boot, .running, [], [], [], []⟩

/-- `JoinHandle::abort`. -/
def abort (p : Process) (i : Nat) : Process :=
  if i ∈ p.busy then { p with condemned := i :: p.condemned }
  else { p with supervisor := p.supervisor.abort i }

/-- A send to a closed channel returns at once. -/
def fatalRoom (p : Process) : Bool := p.stage.closed || p.supervisor.fatalRoom

def delivered (p : Process) (fatal : Option FatalSignal) : List FatalSignal :=
  if p.stage.closed then [] else fatal.toList

/-- The supervisor is at its `select!`. -/
def listening (p : Process) : Bool :=
  p.stage = .running ∧ p.supervisor.boot = [] ∧ p.supervisor.removal = none

def supervise (p : Process) (e : SupervisorEvent) : Option Process :=
  if p.stage = .running then (p.supervisor.step e).map fun s => { p with supervisor := s } else none

/-- A task has taken a step, and with it a fatal signal may have entered the channel. -/
def tell (p : Process) (i : Nat) (t' : Task) (fatal : Option FatalSignal) : Process :=
  { p with
    supervisor :=
      { p.supervisor with
        tasks := p.supervisor.tasks.set i t'
        fatal := p.supervisor.fatal ++ p.delivered fatal }
    sent := p.sent ++ (p.delivered fatal).map (i, ·) }

def yield (p : Process) (i : Nat) : Process :=
  { p with busy := p.busy.filter (· ≠ i), condemned := p.condemned.filter (· ≠ i) }

/-- The supervisor keeps a sender of each channel, so that the receiver of fatal signals never sees
its end; and once the commands have ended, none comes. -/
def step (p : Process) : ProcessEvent → Option Process
  | .spawnBoot => p.supervise .spawnBoot
  | .command cmd => p.supervise (.command cmd)
  | .joined => p.supervise .joined
  | .timedOut =>
    if p.stage = .running then
      match p.supervisor.removal with
      | none => none
      | some r =>
        if r.deadline ≤ p.supervisor.now ∧ p.supervisor.finished r.task = false then
          some ({ p with supervisor := { p.supervisor with removal := none } }.abort r.task)
        else none
    else none
  | .advance => some { p with supervisor := { p.supervisor with now := p.supervisor.now + 1 } }
  | .polled i =>
    if i ∉ p.busy ∧ p.supervisor.finished i = false then some { p with busy := i :: p.busy } else none
  | .task i e =>
    if i ∈ p.busy then
      match p.supervisor.tasks[i]? with
      | none => none
      | some t =>
        match t.step p.supervisor.now p.fatalRoom e with
        | none => none
        | some (t', fatal) => some (p.tell i t' fatal)
    else none
  | .yielded i =>
    if i ∈ p.busy then
      some
        (if i ∈ p.condemned then { p.yield i with supervisor := p.supervisor.abort i } else p.yield i)
    else none
  | .fatalReceived =>
    if p.listening then
      match p.supervisor.fatal with
      | [] => none
      | f :: rest =>
        some
          { p with
            stage := .aborting (.error f)
            supervisor := { p.supervisor with fatal := rest } }
    else none
  | .ctrlC => if p.listening then some { p with stage := .aborting (.ok ()) } else none
  | .aborts name =>
    match p.stage, p.supervisor.registry.lookup name with
    | .aborting result, some i =>
      some
        ({ p with
          supervisor := { p.supervisor with registry := p.supervisor.registry.erase name }
          stage := .dropping result i
          shutDown := i :: p.shutDown }.abort i)
    | _, _ => none
  | .drops =>
    match p.stage with
    | .dropping result i =>
      some
        { p with
          supervisor :=
            { p.supervisor with
              tasks := p.supervisor.tasks.modify i fun t => { t with stop := .dropped } }
          stage := .aborting result }
    | _ => none
  | .drained =>
    match p.stage with
    | .aborting result =>
      if p.supervisor.registry.entries.isEmpty then some { p with stage := .flushing result } else none
    | _ => none
  | .returned =>
    match p.stage with
    | .flushing result => some { p with stage := .returned result }
    | _ => none

inductive Act (p : Process) : ProcessEvent → Process → Prop where
  | spawnBoot (s : Supervisor) (hRunning : p.stage = .running)
      (hAct : Supervisor.Act p.supervisor .spawnBoot s) : Act p .spawnBoot { p with supervisor := s }
  | command (cmd : SupervisorCmd) (s : Supervisor) (hRunning : p.stage = .running)
      (hAct : Supervisor.Act p.supervisor (.command cmd) s) :
      Act p (.command cmd) { p with supervisor := s }
  | joined (s : Supervisor) (hRunning : p.stage = .running)
      (hAct : Supervisor.Act p.supervisor .joined s) : Act p .joined { p with supervisor := s }
  | timedOut (r : Removal) (hRunning : p.stage = .running) (hRemoval : p.supervisor.removal = some r)
      (hUnfinished : p.supervisor.finished r.task = false) :
      Act p .timedOut ({ p with supervisor := { p.supervisor with removal := none } }.abort r.task)
  | advance : Act p .advance { p with supervisor := { p.supervisor with now := p.supervisor.now + 1 } }
  | polled (i : Nat) (hIdle : i ∉ p.busy) (hUnfinished : p.supervisor.finished i = false) :
      Act p (.polled i) { p with busy := i :: p.busy }
  | task (i : Nat) (e : TaskEvent) (t t' : Task) (fatal : Option FatalSignal) (hBusy : i ∈ p.busy)
      (hTask : p.supervisor.tasks[i]? = some t)
      (hStep : t.step p.supervisor.now p.fatalRoom e = some (t', fatal)) :
      Act p (.task i e) (p.tell i t' fatal)
  | yielded (i : Nat) (hBusy : i ∈ p.busy) (hSpared : i ∉ p.condemned) :
      Act p (.yielded i) (p.yield i)
  | ended (i : Nat) (hBusy : i ∈ p.busy) (hCondemned : i ∈ p.condemned) :
      Act p (.yielded i) { p.yield i with supervisor := p.supervisor.abort i }
  | fatalReceived (f : FatalSignal) (rest : List FatalSignal) (hListening : p.listening)
      (hFatal : p.supervisor.fatal = f :: rest) :
      Act p .fatalReceived
        { p with stage := .aborting (.error f), supervisor := { p.supervisor with fatal := rest } }
  | ctrlC (hListening : p.listening) : Act p .ctrlC { p with stage := .aborting (.ok ()) }
  | aborts (name : String) (result : Except FatalSignal Unit) (i : Nat)
      (hStage : p.stage = .aborting result) (hName : p.supervisor.registry.lookup name = some i) :
      Act p (.aborts name)
        ({ p with
          supervisor := { p.supervisor with registry := p.supervisor.registry.erase name }
          stage := .dropping result i
          shutDown := i :: p.shutDown }.abort i)
  | drops (result : Except FatalSignal Unit) (i : Nat) (hStage : p.stage = .dropping result i) :
      Act p .drops
        { p with
          supervisor :=
            { p.supervisor with
              tasks := p.supervisor.tasks.modify i fun t => { t with stop := .dropped } }
          stage := .aborting result }
  | drained (result : Except FatalSignal Unit) (hStage : p.stage = .aborting result)
      (hEmpty : p.supervisor.registry.entries = []) :
      Act p .drained { p with stage := .flushing result }
  | returned (result : Except FatalSignal Unit) (hStage : p.stage = .flushing result) :
      Act p .returned { p with stage := .returned result }

theorem supervise_eq_some {p p' : Process} {e : SupervisorEvent} (h : p.supervise e = some p') :
    p.stage = .running ∧ ∃ s, p.supervisor.step e = some s ∧ p' = { p with supervisor := s } := by
  unfold supervise at h
  split_ifs at h with hRunning
  obtain ⟨s, hStep, rfl⟩ := Option.map_eq_some_iff.mp h
  exact ⟨hRunning, s, hStep, rfl⟩

theorem act_of_step {p p' : Process} {e : ProcessEvent} (h : p.step e = some p') : Act p e p' := by
  cases e with
  | spawnBoot =>
    obtain ⟨hRunning, s, hStep, rfl⟩ := supervise_eq_some h
    exact .spawnBoot s hRunning (Supervisor.act_of_step hStep)
  | command cmd =>
    obtain ⟨hRunning, s, hStep, rfl⟩ := supervise_eq_some h
    exact .command cmd s hRunning (Supervisor.act_of_step hStep)
  | joined =>
    obtain ⟨hRunning, s, hStep, rfl⟩ := supervise_eq_some h
    exact .joined s hRunning (Supervisor.act_of_step hStep)
  | timedOut =>
    simp only [step, Option.ite_none_right_eq_some] at h
    obtain ⟨hRunning, h⟩ := h
    split at h
    · cases h
    · split_ifs at h with hOverrun
      cases h
      exact .timedOut _ hRunning ‹_› hOverrun.2
  | advance =>
    cases h
    exact .advance
  | polled i =>
    simp only [step, Option.ite_none_right_eq_some] at h
    obtain ⟨⟨hIdle, hUnfinished⟩, h⟩ := h
    cases h
    exact .polled i hIdle hUnfinished
  | task i e =>
    simp only [step, Option.ite_none_right_eq_some] at h
    obtain ⟨hBusy, h⟩ := h
    split at h
    · cases h
    · split at h
      · cases h
      · cases h
        exact .task i e _ _ _ hBusy ‹_› ‹_›
  | yielded i =>
    simp only [step, Option.ite_none_right_eq_some] at h
    obtain ⟨hBusy, h⟩ := h
    split_ifs at h with hCondemned
    · cases h
      exact .ended i hBusy hCondemned
    · cases h
      exact .yielded i hBusy hCondemned
  | fatalReceived =>
    simp only [step, Option.ite_none_right_eq_some] at h
    obtain ⟨hListening, h⟩ := h
    split at h
    · cases h
    · cases h
      exact .fatalReceived _ _ hListening ‹_›
  | ctrlC =>
    simp only [step, Option.ite_none_right_eq_some] at h
    obtain ⟨hListening, h⟩ := h
    cases h
    exact .ctrlC hListening
  | aborts name =>
    unfold step at h
    dsimp only at h
    split at h
    · cases h
      exact .aborts name _ _ ‹_› ‹_›
    · cases h
  | drops =>
    unfold step at h
    dsimp only at h
    split at h
    · cases h
      exact .drops _ _ ‹_›
    · cases h
  | drained =>
    unfold step at h
    dsimp only at h
    split at h
    · split_ifs at h with hEmpty
      cases h
      exact .drained _ ‹_› (List.isEmpty_iff.mp hEmpty)
    · cases h
  | returned =>
    unfold step at h
    dsimp only at h
    split at h
    · cases h
      exact .returned _ ‹_›
    · cases h

@[simp] theorem shutDown_abort (p : Process) (i : Nat) : (p.abort i).shutDown = p.shutDown := by
  unfold abort
  split_ifs <;> rfl

@[simp] theorem sent_abort (p : Process) (i : Nat) : (p.abort i).sent = p.sent := by
  unfold abort
  split_ifs <;> rfl

@[simp] theorem stage_abort (p : Process) (i : Nat) : (p.abort i).stage = p.stage := by
  unfold abort
  split_ifs <;> rfl

@[simp] theorem registry_abort (p : Process) (i : Nat) :
    (p.abort i).supervisor.registry = p.supervisor.registry := by
  unfold abort
  split_ifs <;> rfl

@[simp] theorem removal_abort (p : Process) (i : Nat) :
    (p.abort i).supervisor.removal = p.supervisor.removal := by
  unfold abort
  split_ifs <;> rfl

theorem mem_condemned_abort {p : Process} {i j : Nat} (h : j ∈ (p.abort i).condemned) :
    j = i ∨ j ∈ p.condemned := by
  unfold abort at h
  split_ifs at h
  · exact List.mem_cons.mp h
  · exact .inr h

@[simp] theorem length_abort (p : Process) (i : Nat) :
    (p.abort i).supervisor.tasks.length = p.supervisor.tasks.length := by
  unfold abort
  split_ifs
  · rfl
  · simp [Supervisor.abort]

/-- What a step does to one task. -/
inductive Effect (p : Process) (e : ProcessEvent) (p' : Process) (i : Nat) (t : Task) : Task → Prop where
  | same : Effect p e p' i t t
  | removed (name : String) (hEvent : e = .command (.remove name))
      (hName : p.supervisor.registry.lookup name = some i) :
      Effect p e p' i t { t with stop := .sent }
  | dropped (result : Except FatalSignal Unit) (hStage : p.stage = .dropping result i) :
      Effect p e p' i t { t with stop := .dropped }
  | aborted (hUnfinished : t.finished = false)
      (hWhy : (∃ r, p.supervisor.removal = some r ∧ r.task = i) ∨ i ∈ p'.shutDown ∨
        i ∈ p.condemned) :
      Effect p e p' i t { t with point := .ended .aborted }
  | moved (e' : TaskEvent) (t' : Task) (fatal : Option FatalSignal) (hEvent : e = .task i e')
      (hAct : Task.Act p.supervisor.now p.fatalRoom t e' t' fatal)
      (hSent : p'.sent = p.sent ++ (p.delivered fatal).map (i, ·)) : Effect p e p' i t t'

variable {p p' : Process} {e : ProcessEvent} {i j : Nat} {t t' : Task}

/-- A step that changes one task leaves the others as they are. -/
theorem effect_of_modify {f : Task → Task}
    (hTask : (p.supervisor.tasks.modify j f)[i]? = some t')
    (hEffect : j = i → ∀ t, Effect p e p' i t (f t)) :
    ∃ t, p.supervisor.tasks[i]? = some t ∧ Effect p e p' i t t' := by
  rw [List.getElem?_modify] at hTask
  obtain ⟨t, ht, rfl⟩ := Option.map_eq_some_iff.mp hTask
  refine ⟨t, ht, ?_⟩
  split_ifs with hij
  · exact hEffect hij t
  · exact .same

theorem effect_of_abort (hTask : (p.supervisor.abort j).tasks[i]? = some t')
    (hWhy : (∃ r, p.supervisor.removal = some r ∧ r.task = j) ∨ j ∈ p'.shutDown ∨
      j ∈ p.condemned) : ∃ t, p.supervisor.tasks[i]? = some t ∧ Effect p e p' i t t' := by
  apply effect_of_modify hTask
  rintro rfl t
  unfold Task.abort
  split_ifs with hFinished
  · exact .same
  · exact .aborted (by simpa using hFinished) hWhy

/-- Every task was there before the step or has just been spawned. -/
theorem effect_of_act (hAct : Act p e p') (hTask : p'.supervisor.tasks[i]? = some t') :
    (∃ t, p.supervisor.tasks[i]? = some t ∧ Effect p e p' i t t') ∨
      i = p.supervisor.tasks.length ∧ ∃ desc origin,
        t' = .spawn desc origin p.supervisor.criticalThreshold ∧
        p'.supervisor.registry.lookup desc.name = some i := by
  have hSpawned {desc : SourceDescriptor} {origin : Origin}
      (hConcat : (p.supervisor.tasks ++
        [.spawn desc origin p.supervisor.criticalThreshold])[i]? = some t')
      (hRegistry : p'.supervisor.registry =
        p.supervisor.registry.insert desc.name p.supervisor.tasks.length) :
      (∃ t, p.supervisor.tasks[i]? = some t ∧ Effect p e p' i t t') ∨
        i = p.supervisor.tasks.length ∧ ∃ desc origin,
          t' = .spawn desc origin p.supervisor.criticalThreshold ∧
          p'.supervisor.registry.lookup desc.name = some i := by
    obtain hLt | hGe := Nat.lt_or_ge i p.supervisor.tasks.length
    · exact .inl ⟨t', (List.getElem?_append_left hLt).symm.trans hConcat, .same⟩
    · have hLt := (List.getElem?_eq_some_iff.mp hConcat).1
      simp only [List.length_append, List.length_singleton] at hLt
      obtain rfl : i = p.supervisor.tasks.length := by omega
      rw [List.getElem?_concat_length] at hConcat
      exact .inr ⟨rfl, desc, origin, (Option.some.inj hConcat).symm,
        by rw [hRegistry]; exact AList.lookup_insert _⟩
  cases hAct with
  | spawnBoot s hRunning hAct =>
    cases hAct with
    | bootDuplicate desc boot hBoot hName => exact .inl ⟨t', hTask, .same⟩
    | bootSpawned desc boot hBoot hName => exact hSpawned hTask rfl
  | command cmd s hRunning hAct =>
    cases hAct with
    | addDuplicate desc hIdle hName => exact .inl ⟨t', hTask, .same⟩
    | added desc hIdle hName => exact hSpawned hTask rfl
    | removeMissing name hIdle hName => exact .inl ⟨t', hTask, .same⟩
    | removed name j hIdle hName =>
      left
      apply effect_of_modify hTask
      rintro rfl t
      exact .removed name rfl hName
  | joined s hRunning hAct =>
    cases hAct with
    | joined r hRemoval hFinished => exact .inl ⟨t', hTask, .same⟩
  | timedOut r hRunning hRemoval hUnfinished =>
    left
    unfold abort at hTask
    split_ifs at hTask
    · exact ⟨t', hTask, .same⟩
    · exact effect_of_abort hTask (.inl ⟨r, hRemoval, rfl⟩)
  | task j e u u' fatal hBusy hTask' hStep =>
    left
    obtain rfl | hij := eq_or_ne j i
    · have hLt := (List.getElem?_eq_some_iff.mp hTask').1
      obtain rfl := Option.some.inj ((List.getElem?_set_self hLt).symm.trans hTask)
      exact ⟨u, hTask', .moved e _ fatal rfl (Task.act_of_step hStep) rfl⟩
    · exact ⟨t', (List.getElem?_set_ne hij).symm.trans hTask, .same⟩
  | ended j hBusy hCondemned => exact .inl (effect_of_abort hTask (.inr (.inr hCondemned)))
  | aborts name result j hStage hName =>
    left
    have hShutDown := shutDown_abort { p with
      supervisor := { p.supervisor with registry := p.supervisor.registry.erase name }
      stage := .dropping result j
      shutDown := j :: p.shutDown } j
    unfold abort at hTask
    split_ifs at hTask
    · exact ⟨t', hTask, .same⟩
    · exact effect_of_abort hTask (.inr (.inl (by rw [hShutDown]; exact List.mem_cons_self)))
  | drops result j hStage =>
    left
    apply effect_of_modify hTask
    rintro rfl t
    exact .dropped result hStage
  | advance | polled | yielded | fatalReceived | ctrlC | drained | returned =>
    exact .inl ⟨t', hTask, .same⟩

theorem Effect.desc (h : Effect p e p' i t t') : t'.desc = t.desc := by
  cases h with
  | moved e' _ fatal hEvent hAct hSent => exact (Task.spec_of_act hAct).1.desc
  | _ => rfl

theorem length_le_of_act (hAct : Act p e p') :
    p.supervisor.tasks.length ≤ p'.supervisor.tasks.length := by
  cases hAct with
  | spawnBoot s hRunning hAct | command cmd s hRunning hAct | joined s hRunning hAct =>
    cases hAct <;> simp
  | _ => simp [tell, yield, Supervisor.abort]

theorem effect_of_task (hAct : Act p e p') (hTask : p.supervisor.tasks[i]? = some t) :
    ∃ t', p'.supervisor.tasks[i]? = some t' ∧ Effect p e p' i t t' := by
  have hLt := (List.getElem?_eq_some_iff.mp hTask).1
  have hTask' : p'.supervisor.tasks[i]? = some _ :=
    List.getElem?_eq_getElem (hLt.trans_le (length_le_of_act hAct))
  refine ⟨_, hTask', ?_⟩
  obtain ⟨u, hu, hEffect⟩ | ⟨rfl, -⟩ := effect_of_act hAct hTask'
  · obtain rfl := Option.some.inj (hTask.symm.trans hu)
    exact hEffect
  · omega

theorem grows_of_act (hAct : Act p e p') : p.sent ⊆ p'.sent ∧ p.shutDown ⊆ p'.shutDown := by
  cases hAct with
  | timedOut r hRunning hRemoval hUnfinished =>
    rw [sent_abort, shutDown_abort]
    exact ⟨List.Subset.refl _, List.Subset.refl _⟩
  | aborts name result j hStage hName =>
    rw [sent_abort, shutDown_abort]
    exact ⟨List.Subset.refl _, List.subset_cons_self _ _⟩
  | task j e u u' fatal hBusy hTask hStep =>
    exact ⟨List.subset_append_left _ _, List.Subset.refl _⟩
  | _ => exact ⟨List.Subset.refl _, List.Subset.refl _⟩

/-- A fatal signal enters the channel as its task makes its report. -/
theorem sent_of_act (hAct : Act p e p') {f : FatalSignal} (hSent : (i, f) ∈ p'.sent) :
    (i, f) ∈ p.sent ∨ ∃ t resume, p.supervisor.tasks[i]? = some t ∧ t.point = .reporting f resume := by
  cases hAct with
  | task j e u u' fatal hBusy hTask hStep =>
    obtain hOld | hNew := List.mem_append.mp hSent
    · exact .inl hOld
    · obtain ⟨f', hDelivered, hPair⟩ := List.mem_map.mp hNew
      obtain ⟨rfl, rfl⟩ := Prod.mk.inj hPair
      right
      unfold delivered at hDelivered
      split_ifs at hDelivered
      · cases hDelivered
      · obtain rfl := Option.mem_toList.mp hDelivered
        cases Task.act_of_step hStep with
        | reported _ resume hPoint hRoom => exact ⟨u, resume, hTask, hPoint⟩
  | timedOut r hRunning hRemoval hUnfinished | aborts name result j hStage hName =>
    rw [sent_abort] at hSent
    exact .inl hSent
  | _ => exact .inl hSent

/-- What holds of every task when it is spawned, and is kept by each effect, holds of every task. -/
theorem tasks_of_act {Q : Process → Nat → Task → Prop} (hAct : Act p e p')
    (h : ∀ i t, p.supervisor.tasks[i]? = some t → Q p i t)
    (hEffect : ∀ i t t', p.supervisor.tasks[i]? = some t → p'.supervisor.tasks[i]? = some t' →
      Effect p e p' i t t' → Q p i t → Q p' i t')
    (hSpawn : ∀ desc origin,
      p'.supervisor.registry.lookup desc.name = some p.supervisor.tasks.length →
      Q p' p.supervisor.tasks.length (.spawn desc origin p.supervisor.criticalThreshold))
    (i : Nat) (t' : Task) (hTask : p'.supervisor.tasks[i]? = some t') : Q p' i t' := by
  obtain ⟨t, ht, hOne⟩ | ⟨rfl, desc, origin, rfl, hRegistered⟩ := effect_of_act hAct hTask
  · exact hEffect i t t' ht hTask hOne (h i t ht)
  · exact hSpawn desc origin hRegistered

/-- A handle in the registry leads to a task of its name. -/
def Handled (p : Process) : Prop := ∀ name i, p.supervisor.registry.lookup name = some i →
  ∃ t, p.supervisor.tasks[i]? = some t ∧ t.desc.name = name

theorem handled_new (criticalThreshold : UInt32) (boot : List SourceDescriptor) :
    Handled (new criticalThreshold boot) := by
  intro name i hName
  cases hName

theorem handle_of_act (hAct : Act p e p') {name : String}
    (hName : p'.supervisor.registry.lookup name = some i) :
    p.supervisor.registry.lookup name = some i ∨
      ∃ t, p'.supervisor.tasks[i]? = some t ∧ t.desc.name = name := by
  have hInsert {desc : SourceDescriptor} {origin : Origin}
      (hName : (p.supervisor.registry.insert desc.name p.supervisor.tasks.length).lookup name =
        some i) : p.supervisor.registry.lookup name = some i ∨
      ∃ t, (p.supervisor.tasks ++ [.spawn desc origin p.supervisor.criticalThreshold])[i]? = some t ∧
        t.desc.name = name := by
    obtain rfl | hOther := eq_or_ne name desc.name
    · rw [AList.lookup_insert] at hName
      obtain rfl := Option.some.inj hName
      exact .inr ⟨_, List.getElem?_concat_length, rfl⟩
    · rw [AList.lookup_insert_ne hOther] at hName
      exact .inl hName
  have hErase {gone : String} (hName : (p.supervisor.registry.erase gone).lookup name = some i) :
      p.supervisor.registry.lookup name = some i := by
    obtain rfl | hOther := eq_or_ne name gone
    · rw [AList.lookup_erase] at hName
      cases hName
    · rwa [AList.lookup_erase_ne hOther] at hName
  cases hAct with
  | spawnBoot s hRunning hAct =>
    cases hAct with
    | bootDuplicate desc boot hBoot hDuplicate => exact .inl hName
    | bootSpawned desc boot hBoot hNew => exact hInsert hName
  | command cmd s hRunning hAct =>
    cases hAct with
    | addDuplicate desc hIdle hDuplicate => exact .inl hName
    | added desc hIdle hNew => exact hInsert hName
    | removeMissing gone hIdle hMissing => exact .inl hName
    | removed gone j hIdle hGone => exact .inl (hErase hName)
  | joined s hRunning hAct =>
    cases hAct with
    | joined r hRemoval hFinished => exact .inl hName
  | timedOut r hRunning hRemoval hUnfinished =>
    rw [registry_abort] at hName
    exact .inl hName
  | aborts gone result j hStage hGone =>
    rw [registry_abort] at hName
    exact .inl (hErase hName)
  | _ => exact .inl hName

theorem handled_of_act (hAct : Act p e p') (h : Handled p) : Handled p' := by
  intro name i hName
  obtain hOld | hNew := handle_of_act hAct hName
  · obtain ⟨t, hTask, hDesc⟩ := h name i hOld
    obtain ⟨t', hTask', hEffect⟩ := effect_of_task hAct hTask
    exact ⟨t', hTask', by rw [hEffect.desc, hDesc]⟩
  · exact hNew

/-- No removal times out on a task in the middle of a poll. -/
def calm (p : Process) : ProcessEvent → Prop
  | .timedOut => ∀ r, p.supervisor.removal = some r → r.task ∉ p.busy
  | _ => True

theorem step_timedOut {s : Supervisor} {r : Removal} (hRemoval : s.removal = some r)
    (hDeadline : r.deadline ≤ s.now) (hUnfinished : s.finished r.task = false) :
    s.step .timedOut = some ({ s with removal := none }.abort r.task) := by
  have hAborted (t : Task) (hTask : s.tasks[r.task]? = some t) :
      t.abort = { t with point := .ended .aborted } := by
    simp only [Supervisor.finished, hTask, Option.map_some, Option.getD_some] at hUnfinished
    simp [Task.abort, hUnfinished]
  have hTasks : (s.tasks.modify r.task fun t => { t with point := .ended .aborted }) =
      s.tasks.modify r.task Task.abort := by
    apply List.ext_getElem?
    intro i
    rw [List.getElem?_modify, List.getElem?_modify]
    cases hTask : s.tasks[i]? with
    | none => rfl
    | some t =>
      obtain rfl | hOther := eq_or_ne r.task i
      · simp [hAborted t hTask]
      · simp [hOther]
  simp only [Supervisor.step, hRemoval, hDeadline, hUnfinished, and_self, if_true, Supervisor.abort,
    hTasks]

/-- Until it shuts down, such a process is a supervisor as it stands before shutdown. -/
theorem reaches_of_calm {criticalThreshold : UInt32} {boot : List SourceDescriptor}
    {events : List ProcessEvent} (hRun : Run step calm (new criticalThreshold boot) events p)
    (hRunning : p.stage = .running) :
    Reaches Supervisor.step (.new criticalThreshold boot) p.supervisor := by
  have hInvariant := hRun.invariant (I := fun p => p.stage = .running →
    Reaches Supervisor.step (.new criticalThreshold boot) p.supervisor ∧ p.condemned = [])
    (fun _ => ⟨.refl _, rfl⟩) ?_
  · exact (hInvariant hRunning).1
  intro p e p' h hCalm hStep hRunning'
  cases act_of_step hStep with
  | spawnBoot _ hRunning | command _ _ hRunning | joined _ hRunning =>
    obtain ⟨hReaches, hNone⟩ := h hRunning
    obtain ⟨-, s, hSupervisor, hTo⟩ := supervise_eq_some hStep
    rw [hTo]
    exact ⟨hReaches.tail hSupervisor, hNone⟩
  | timedOut r hRunning hRemoval hUnfinished =>
    obtain ⟨hReaches, hNone⟩ := h hRunning
    have hIdle : r.task ∉ p.busy := hCalm r hRemoval
    simp only [step, hRunning, if_true, hRemoval] at hStep
    split_ifs at hStep with hOverrun
    have hSupervisor := step_timedOut hRemoval hOverrun.1 hUnfinished
    rw [abort, if_neg hIdle]
    exact ⟨hReaches.tail hSupervisor, hNone⟩
  | advance => exact ⟨(h hRunning').1.tail (l := .advance) rfl, (h hRunning').2⟩
  | polled i hIdle hUnfinished => exact h hRunning'
  | task i e t t' fatal hBusy hTask hTaskStep =>
    obtain ⟨hReaches, hNone⟩ := h hRunning'
    have hOpen : p.stage.closed = false := by
      rw [show p.stage = .running from hRunning']
      rfl
    refine ⟨hReaches.tail (l := .task i e) ?_, hNone⟩
    rw [fatalRoom, hOpen, Bool.false_or] at hTaskStep
    simp [Supervisor.step, hTask, hTaskStep, tell, delivered, hOpen]
  | yielded i hBusy hSpared =>
    obtain ⟨hReaches, hNone⟩ := h hRunning'
    exact ⟨hReaches, by simp [yield, hNone]⟩
  | ended i hBusy hCondemned =>
    rw [(h hRunning').2] at hCondemned
    cases hCondemned
  | aborts name result i hStage hName =>
    rw [stage_abort] at hRunning'
    cases hRunning'
  | fatalReceived | ctrlC | drops | drained | returned => cases hRunning'

end Process

end HarnessSphere
