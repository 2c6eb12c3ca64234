import HarnessSphere.Runtime.OneWriter

/-! # Retirement before the deadline

A removal sends the stop and gives the task `retireTimeout` seconds. The task notices the stop only
between two ticks, so a backoff may keep it from there for longer than that, and so may a report that
finds no room. Where neither happens the task always retires by itself.
-/

namespace HarnessSphere

open Machine

namespace Task

def entered (t : Task) : Bool := match t.point with
  | .waiting | .sleeping _ | .collecting | .reporting _ .loop => true
  | _ => false

def underWay (t : Task) : Bool := match t.point with
  | .retiring _ _ => true
  | _ => t.entered

def blocked (t : Task) (now : Nat) (room : Bool) : Bool := match t.point with
  | .waiting => t.stop = .pending ∧ now < t.tick
  | .sleeping wake => now < wake
  | .reporting _ _ => !room
  | .collecting | .retiring _ _ => false
  | .probing | .ended _ => true

/-- The sleep ends before the deadline, the report has its place in the channel. -/
def onTime (t : Task) (deadline : Nat) (room : Bool) : Bool := match t.point with
  | .sleeping wake => wake < deadline
  | .reporting _ _ => room
  | _ => true

def failsFatally (t : Task) : CollectOutcome → Bool
  | .ok => false
  | _ => classifyFailure t.desc.criticality t.breaker.recordFailure = .fatal

/-- The task neither goes to sleep past the deadline nor has to report into a full channel. -/
def timely (t : Task) (now deadline : Nat) (room : Bool) : TaskEvent → Bool
  | .ticked => !t.breaker.isOpen || now + t.breaker.backoff < deadline
  | .collected outcome => !t.failsFatally outcome || room
  | _ => true

theorem unfinished_of_underWay {t : Task} (h : t.underWay) : t.finished = false := by
  unfold underWay entered at h
  unfold finished
  cases hPoint : t.point <;> simp_all

theorem handleFailure_onTime {t : Task} {outcome : CollectOutcome} {err : String}
    (hFailure : outcome ≠ .ok) {deadline : Nat} {room : Bool}
    (hTimely : t.failsFatally outcome → room) :
    (t.handleFailure err).underWay ∧ (t.handleFailure err).onTime deadline room := by
  unfold handleFailure
  dsimp only
  split
  · exact ⟨rfl, rfl⟩
  · rename_i hFatal
    refine ⟨rfl, hTimely ?_⟩
    cases outcome with
    | ok => exact absurd rfl hFailure
    | err e => exact decide_eq_true hFatal
    | panicked => exact decide_eq_true hFatal

theorem collected_onTime {t : Task} {outcome : CollectOutcome} {deadline : Nat} {room : Bool}
    (hTimely : t.failsFatally outcome → room) :
    (t.collected outcome).underWay ∧ (t.collected outcome).onTime deadline room := by
  cases outcome with
  | ok => exact ⟨rfl, rfl⟩
  | err e => exact handleFailure_onTime CollectOutcome.noConfusion hTimely
  | panicked => exact handleFailure_onTime CollectOutcome.noConfusion hTimely

theorem ticked_onTime {t : Task} {now deadline : Nat} {room : Bool}
    (hTimely : t.breaker.isOpen → now + t.breaker.backoff < deadline) :
    (t.ticked now).underWay ∧ (t.ticked now).onTime deadline room := by
  unfold ticked
  cases hOpen : t.breaker.isOpen with
  | false => exact ⟨rfl, rfl⟩
  | true => exact ⟨rfl, decide_eq_true (hTimely hOpen)⟩

theorem reported_of_fatal {now : Nat} {room : Bool} {t t' : Task} {e : TaskEvent} {f : FatalSignal}
    (hStep : t.step now room e = some (t', some f)) : e = .reported := by
  cases act_of_step hStep
  rfl

/-- A timely step of a task under way leaves it under way and on time, or retires it. A report that
has left the channel with less room leaves no other report to make. -/
theorem step_onTime {now deadline : Nat} {room : Bool} {t t' : Task} {e : TaskEvent}
    {fatal : Option FatalSignal} (hStep : t.step now room e = some (t', fatal))
    (hUnderWay : t.underWay) (hPanic : e ≠ .panicked) (hTimely : t.timely now deadline room e)
    {room' : Bool} (hRoom : fatal = none → room' = room) :
    t'.underWay ∧ t'.onTime deadline room' ∨ ∃ terminal, t'.point = .ended (.retired terminal) := by
  cases act_of_step hStep with
  | probed r hPoint | probePanicked hPoint => simp [underWay, entered, hPoint] at hUnderWay
  | ticked hPoint hDue =>
    left
    apply ticked_onTime
    intro hOpen
    simpa [timely, hOpen] using hTimely
  | stopSeen _ _ _ | woke _ _ _ | terminal _ _ _ _ => exact .inl ⟨rfl, rfl⟩
  | emitted signal hPoint =>
    left
    simp [underWay, entered, onTime, emit, hPoint]
  | collected outcome hPoint =>
    left
    rw [hRoom rfl]
    apply collected_onTime
    intro hFatal
    simpa [timely, hFatal] using hTimely
  | reported fatal resume hPoint _ =>
    left
    cases resume with
    | loop => exact ⟨rfl, rfl⟩
    | fatalProbe | panicked => simp [underWay, entered, hPoint] at hUnderWay
  | retired terminal hPoint => exact .inr ⟨terminal, rfl⟩
  | retirePanicked _ _ _ => exact absurd rfl hPanic

end Task

namespace Supervisor

def underRemoval (s : Supervisor) (i : Nat) : Option (Nat × Task) := do
  let r ← s.removal
  let t ← s.tasks[i]?
  if r.task = i then some (r.deadline, t) else none

/-- Time passes in the removal of task `i` only while the task waits for it, and its `retire` does not
panic. -/
def prompt (i : Nat) (s : Supervisor) : SupervisorEvent → Bool
  | .advance => (s.underRemoval i).all fun (_, t) => t.blocked s.now s.fatalRoom
  | .task j .panicked => j ≠ i
  | _ => true

/-- Of the other tasks' steps only a report matters: it may take the place that the task waits for. -/
def timely (i : Nat) (s : Supervisor) : SupervisorEvent → Bool
  | .task j e => (s.underRemoval i).all fun (deadline, t) =>
    if j = i then t.timely s.now deadline s.fatalRoom e
    else e ≠ .reported || t.onTime deadline (s.fatal.length + 1 < fatalCapacity)
  | _ => true

/-- Task `i` is on its way to its retirement before the deadline. -/
structure Retiring (i : Nat) (s : Supervisor) (t : Task) (deadline : Nat) : Prop where
  task : s.tasks[i]? = some t
  removal : s.removal = some ⟨i, deadline⟩
  stop : t.stop = .sent
  before : s.now < deadline
  underWay : t.underWay
  onTime : t.onTime deadline s.fatalRoom

def Retired (i : Nat) (s : Supervisor) : Prop :=
  ∃ t terminal, s.tasks[i]? = some t ∧ t.point = .ended (.retired terminal)

theorem Retiring.underRemoval {i : Nat} {s : Supervisor} {t : Task} {deadline : Nat}
    (h : Retiring i s t deadline) : s.underRemoval i = some (deadline, t) := by
  simp [Supervisor.underRemoval, h.removal, h.task]

theorem Retiring.unfinished {i : Nat} {s : Supervisor} {t : Task} {deadline : Nat}
    (h : Retiring i s t deadline) : s.finished i = false := by
  simp [finished, h.task, Task.unfinished_of_underWay h.underWay]

theorem retiring_of_removed {s s' : Supervisor} {name : String} {i : Nat} {t : Task}
    (hName : s.registry.lookup name = some i) (hTask : s.tasks[i]? = some t) (hEntered : t.entered)
    (hOnTime : t.onTime (s.now + retireTimeout) s.fatalRoom)
    (hStep : step s (.command (.remove name)) = some s') :
    Retiring i s' { t with stop := .sent } (s.now + retireTimeout) := by
  have hUnderWay : t.underWay := by
    unfold Task.underWay
    split <;> simp_all [Task.entered]
  cases act_of_step hStep with
  | removeMissing _ _ hNone =>
    rw [hName] at hNone
    cases hNone
  | removed _ j _ hSome =>
    obtain rfl := Option.some.inj (hName.symm.trans hSome)
    refine ⟨?_, rfl, rfl, Nat.lt_add_of_pos_right (by decide), hUnderWay, hOnTime⟩
    rw [List.getElem?_modify_eq, hTask]
    rfl

/-- What keeps a task that has seen its stop sent from its next step ends before the deadline. -/
theorem Retiring.advance {i : Nat} {s : Supervisor} {t : Task} {deadline : Nat}
    (h : Retiring i s t deadline) (hBlocked : t.blocked s.now s.fatalRoom) :
    s.now + 1 < deadline := by
  have hStop := h.stop
  have hUnderWay := h.underWay
  have hOnTime := h.onTime
  unfold Task.underWay Task.entered at hUnderWay
  unfold Task.onTime at hOnTime
  unfold Task.blocked at hBlocked
  cases hPoint : t.point <;> simp_all
  omega

theorem Retiring.task_step {i j : Nat} {s : Supervisor} {t : Task} {deadline : Nat}
    (h : Retiring i s t deadline) {e : TaskEvent} (hPrompt : prompt i s (.task j e))
    (hTimely : timely i s (.task j e)) {u u' : Task} {fatal : Option FatalSignal}
    (hTask : s.tasks[j]? = some u) (hStep : u.step s.now s.fatalRoom e = some (u', fatal))
    {s' : Supervisor}
    (hTo : s' = { s with tasks := s.tasks.set j u', fatal := s.fatal ++ fatal.toList }) :
    (∃ t', Retiring i s' t' deadline) ∨ Retired i s' := by
  subst hTo
  have hLt : j < s.tasks.length := (List.getElem?_eq_some_iff.mp hTask).1
  simp only [timely, h.underRemoval, Option.all_some] at hTimely
  rcases eq_or_ne j i with rfl | hOther
  · obtain rfl := Option.some.inj (h.task.symm.trans hTask)
    rw [if_pos rfl] at hTimely
    have hPanic : e ≠ .panicked := by
      rintro rfl
      simp [prompt] at hPrompt
    have hRoom : fatal = none →
        fatalRoom { s with tasks := s.tasks.set j u', fatal := s.fatal ++ fatal.toList } =
          s.fatalRoom := by
      rintro rfl
      simp [fatalRoom]
    have hSelf : (s.tasks.set j u')[j]? = some u' := List.getElem?_set_self hLt
    obtain ⟨hUnderWay, hOnTime⟩ | ⟨terminal, hRetired⟩ :=
      Task.step_onTime hStep h.underWay hPanic hTimely hRoom
    · have hStop : u'.stop = .sent := (Task.step_spec hStep).1.stop.trans h.stop
      exact .inl ⟨u', hSelf, h.removal, hStop, h.before, hUnderWay, hOnTime⟩
    · exact .inr ⟨u', terminal, hSelf, hRetired⟩
  · rw [if_neg hOther] at hTimely
    left
    refine ⟨t, (List.getElem?_set_ne hOther).trans h.task, h.removal, h.stop, h.before, h.underWay, ?_⟩
    cases fatal with
    | none => simpa [fatalRoom] using h.onTime
    | some f => simpa [fatalRoom, Task.reported_of_fatal hStep] using hTimely

theorem Retiring.step {i : Nat} {s s' : Supervisor} {t : Task} {deadline : Nat}
    (h : Retiring i s t deadline) {e : SupervisorEvent} (hPrompt : prompt i s e)
    (hTimely : timely i s e) (hAct : Act s e s') :
    (∃ t', Retiring i s' t' deadline) ∨ Retired i s' := by
  have hRemoval := h.removal
  cases hAct with
  | bootDuplicate desc boot hBoot hName | addDuplicate desc hIdle hName =>
    exact .inl ⟨t, h.task, hRemoval, h.stop, h.before, h.underWay, h.onTime⟩
  | bootSpawned desc boot hBoot hName =>
    have hLt := (List.getElem?_eq_some_iff.mp h.task).1
    exact .inl ⟨t, (List.getElem?_append_left hLt).trans h.task, hRemoval, h.stop, h.before,
      h.underWay, h.onTime⟩
  | added desc hIdle hName | removeMissing name hIdle hName | removed name j hIdle hName =>
    rw [hIdle.2] at hRemoval
    cases hRemoval
  | joined r hSome hFinished =>
    obtain rfl := Option.some.inj (hRemoval.symm.trans hSome)
    rw [h.unfinished] at hFinished
    cases hFinished
  | timedOut r hSome hDeadline hUnfinished =>
    obtain rfl := Option.some.inj (hRemoval.symm.trans hSome)
    have hBefore := h.before
    dsimp only at hDeadline
    omega
  | task j e u u' fatal hTask hStep => exact h.task_step hPrompt hTimely hTask hStep rfl
  | advance =>
    simp only [prompt, h.underRemoval, Option.all_some] at hPrompt
    exact .inl ⟨t, h.task, hRemoval, h.stop, h.advance hPrompt, h.underWay, h.onTime⟩

theorem Retired.step {i : Nat} {s s' : Supervisor} {e : SupervisorEvent} (h : Retired i s)
    (hAct : Act s e s') : Retired i s' := by
  obtain ⟨t, terminal, hTask, hPoint⟩ := h
  obtain ⟨t', hTask', hEvolves⟩ := evolves_of_act hAct hTask
  have hFinished : t.finished := by simp [Task.finished, hPoint]
  refine ⟨t', terminal, hTask', ?_⟩
  cases hEvolves with
  | same => exact hPoint
  | stopped => exact hPoint
  | aborted hUnfinished =>
    rw [hFinished] at hUnfinished
    cases hUnfinished
  | moved now room e _ fatal hStep =>
    rw [Task.not_step_of_finished hFinished] at hStep
    cases hStep

theorem retires_of_run {i : Nat} {s s' : Supervisor} {t : Task} {deadline : Nat}
    (h : Retiring i s t deadline) {events : List SupervisorEvent}
    (hRun : Run step (fun s e => prompt i s e ∧ timely i s e) s events s') :
    (∃ t', Retiring i s' t' deadline) ∨ Retired i s' := by
  apply hRun.invariant (I := fun s => (∃ t, Retiring i s t deadline) ∨ Retired i s) (.inl ⟨t, h⟩)
  rintro a e b (⟨u, hRetiring⟩ | hRetired) ⟨hPrompt, hTimely⟩ hStep
  · exact hRetiring.step hPrompt hTimely (act_of_step hStep)
  · exact .inr (hRetired.step (act_of_step hStep))

/-- A source in its loop is removed and then runs promptly and on time: its deadline never strikes, and
once the removal is through the task has put all its terminal signals into the channel, last. -/
theorem removal_retires (criticalThreshold : UInt32) (boot : List SourceDescriptor)
    (s removed later : Supervisor) (name : String) (i : Nat) (t : Task)
    (events : List SupervisorEvent) (hReach : Reaches step (new criticalThreshold boot) s)
    (hName : s.registry.lookup name = some i) (hTask : s.tasks[i]? = some t) (hEntered : t.entered)
    (hOnTime : t.onTime (s.now + retireTimeout) s.fatalRoom)
    (hRemove : step s (.command (.remove name)) = some removed)
    (hRun : Run step (fun s e => prompt i s e ∧ timely i s e) removed events later) :
    (∀ deadline, later.removal = some ⟨i, deadline⟩ → step later .timedOut = none) ∧
    ((∀ deadline, later.removal ≠ some ⟨i, deadline⟩) → ∃ t' terminal before,
      later.tasks[i]? = some t' ∧ t'.point = .ended (.retired terminal) ∧
      t'.sent = before ++ t'.terminalBlock terminal ∧ ∀ x ∈ before, x.1 = .collect) := by
  have hLater : Reaches step (new criticalThreshold boot) later :=
    (hReach.tail hRemove).trans hRun.reaches
  have hRetires :=
    retires_of_run (retiring_of_removed hName hTask hEntered hOnTime hRemove) hRun
  constructor
  · intro deadline hRemoval
    rw [Option.eq_none_iff_forall_not_mem]
    intro aborted hAborted
    cases act_of_step hAborted with
    | timedOut r hSome hDeadline hUnfinished =>
      obtain rfl := Option.some.inj (hRemoval.symm.trans hSome)
      rcases hRetires with ⟨t', hRetiring⟩ | ⟨t', terminal, hTask', hPoint⟩
      · obtain rfl : _ = deadline :=
          congrArg Removal.deadline (Option.some.inj (hRetiring.removal.symm.trans hRemoval))
        have hBefore := hRetiring.before
        dsimp only at hDeadline
        omega
      · simp [finished, hTask', Task.finished, hPoint] at hUnfinished
  · intro hThrough
    rcases hRetires with ⟨t', hRetiring⟩ | ⟨t', terminal, hTask', hPoint⟩
    · exact absurd hRetiring.removal (hThrough _)
    · obtain ⟨before, after, hBlocks⟩ := blocksSent_of_reaches hLater i t' hTask'
      obtain rfl := hBlocks.retired terminal hPoint
      exact ⟨t', terminal, before, hTask', hPoint, hBlocks.sent, hBlocks.collects⟩

def everySecond : SourceDescriptor := { sessionDescriptor with defaultInterval := 1 }

theorem a_waiting_session_retires :
    let waiting := afterEvents (new 3 [])
      [.command (.add everySecond), .task 0 (.probed .ready), .task 0 .ticked,
        .task 0 (.collected .ok)]
    let removed := afterEvents waiting [.command (.remove everySecond.name)]
    let later := afterEvents removed [.task 0 (.stopSeen [noSessions]),
      .task 0 (.emitted noSessions), .task 0 .retired, .joined]
    ∃ t' terminal before, later.tasks[0]? = some t' ∧ t'.point = .ended (.retired terminal) ∧
      t'.sent = before ++ t'.terminalBlock terminal ∧ ∀ x ∈ before, x.1 = .collect := by
  intro waiting removed later
  have hWaiting : Reaches step (new 3 []) waiting := reaches_afterEvents rfl
  let events : List SupervisorEvent :=
    [.task 0 (.stopSeen [noSessions]), .task 0 (.emitted noSessions), .task 0 .retired, .joined]
  have hExec : exec (guarded step fun s e => prompt 0 s e && timely 0 s e) removed events =
      some later := rfl
  have hRun : Run step (fun s e => prompt 0 s e ∧ timely 0 s e) removed events later :=
    (run_of_exec_guarded hExec).mono fun s e hOk => Bool.and_eq_true_iff.mp hOk
  exact (removal_retires 3 [] waiting removed later everySecond.name 0 _ _ hWaiting rfl rfl rfl
    rfl rfl hRun).2 (by rintro deadline ⟨⟩)

def fourFailures : List SupervisorEvent :=
  [.command (.add everySecond), .task 0 (.probed .ready)] ++
    fail 0 ++ [.advance] ++ fail 1 ++ fail 2 ++ fail 4 ++ [.task 0 .ticked]
where
  fail (backoff : Nat) : List SupervisorEvent :=
    [.task 0 .ticked] ++ List.replicate backoff .advance ++
      (if backoff = 0 then [] else [.task 0 .woke]) ++
      [.task 0 (.collected (.err (.unavailable "no session directories under /data")))]

theorem a_backoff_outlasts_the_retirement :
    let sleeping := afterEvents (new 3 []) fourFailures
    let removed := afterEvents sleeping [.command (.remove everySecond.name)]
    let later := afterEvents removed (List.replicate 5 .advance ++ [.timedOut])
    Reaches step (new 3 []) sleeping ∧
      step sleeping (.command (.remove everySecond.name)) = some removed ∧
      Run step (fun s e => prompt 0 s e) removed (List.replicate 5 .advance ++ [.timedOut]) later ∧
      later.removal = none ∧
      ∃ t t', sleeping.tasks[0]? = some t ∧ t.entered ∧ later.tasks[0]? = some t' ∧
        t'.point = .ended .aborted ∧ t'.sent = [] := by
  intro sleeping removed later
  exact ⟨reaches_afterEvents rfl, rfl, run_of_exec_guarded rfl, rfl, _, _, rfl, rfl, rfl, rfl, rfl⟩

end Supervisor

end HarnessSphere
