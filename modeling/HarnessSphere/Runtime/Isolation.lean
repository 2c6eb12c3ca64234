import HarnessSphere.Runtime.Deaths
import HarnessSphere.Runtime.Schedule

/-! # Each task on its own

What the other tasks, the supervisor and the shutdown do reaches a task as its stop and as its abort, and
in no other way. So each task of a whole process has lived a life of its own, and what is reported of a
source has its cause in what that source did.
-/

namespace HarnessSphere

open Machine

/-- The step of its own that a task takes in its life. -/
def LifeEvent.taken : LifeEvent → Option TaskEvent
  | .own _ _ e => some e
  | _ => none

def TaskEvent.outcome : TaskEvent → Option CollectOutcome
  | .collected outcome => some outcome
  | _ => none

def TaskEvent.answer : TaskEvent → Option ProbeResult
  | .probed r => some r
  | _ => none

/-- What `handle_failure` is told of a failed collection. -/
def CollectOutcome.reason : CollectOutcome → Option String
  | .ok => none
  | .err e => some e.toString
  | .panicked => some "panic contained in the collector"

/-- What a source must have done to be reported dead with these words. -/
inductive Cause (desc : SourceDescriptor) (criticalThreshold : UInt32) (es : List TaskEvent) :
    FatalSignal → Prop where
  | probe (msg : String) (hProbed : .probed (.fatal msg) ∈ es) :
      Cause desc criticalThreshold es ⟨desc.name, "probe fatal: " ++ msg⟩
  | panic (hCritical : desc.criticality = .critical)
      (hPanicked : .panicked ∈ es ∨ desc.defaultInterval = 0) :
      Cause desc criticalThreshold es ⟨desc.name, "supervisor task panicked"⟩
  | failures (hCritical : desc.criticality = .critical) (history : List CollectOutcome)
      (last : CollectOutcome) (reason : String)
      (hHistory : history ++ [last] <+: es.filterMap TaskEvent.outcome)
      (hStreak : max 1 criticalThreshold.toNat ≤ streak CollectOutcome.failed (history ++ [last]))
      (hReason : last.reason = some reason) :
      Cause desc criticalThreshold es ⟨desc.name, reason⟩

theorem Cause.append {desc : SourceDescriptor} {criticalThreshold : UInt32} {es : List TaskEvent}
    {f : FatalSignal} (h : Cause desc criticalThreshold es f) (more : List TaskEvent) :
    Cause desc criticalThreshold (es ++ more) f := by
  cases h with
  | probe msg hProbed => exact .probe msg (List.mem_append_left _ hProbed)
  | panic hCritical hPanicked =>
    exact .panic hCritical (hPanicked.imp_left (List.mem_append_left _))
  | failures hCritical history last reason hHistory hStreak hReason =>
    refine .failures hCritical history last reason (hHistory.trans ?_) hStreak hReason
    rw [List.filterMap_append]
    exact List.prefix_append _ _

namespace Task

variable {now : Nat} {room : Bool} {t t' : Task} {e : TaskEvent} {fatal : Option FatalSignal}

theorem eq_of_panic {f : FatalSignal} {resume : Resume} (hPoint : t.panic.point = .reporting f resume) :
    t.desc.criticality = .critical ∧ f = ⟨t.desc.name, "supervisor task panicked"⟩ := by
  obtain ⟨hEnded, -⟩ | ⟨hReporting, hCritical⟩ := t.point_panic
  · rw [hEnded] at hPoint
    cases hPoint
  · rw [hReporting] at hPoint
    cases hPoint
    exact ⟨hCritical, rfl⟩

theorem eq_of_probed {r : ProbeResult} {f : FatalSignal} {resume : Resume}
    (hPoint : (t.probed now r).point = .reporting f resume) :
    (∃ msg, r = .fatal msg ∧ f = ⟨t.desc.name, "probe fatal: " ++ msg⟩) ∨
      t.desc.criticality = .critical ∧ t.desc.defaultInterval = 0 ∧
        f = ⟨t.desc.name, "supervisor task panicked"⟩ := by
  obtain hTo | hTo | ⟨-, -, hTo⟩ | ⟨msg, rfl, hTo⟩ := t.point_probed now r
  · rw [hTo] at hPoint
    cases hPoint
  · have hPanic := eq_of_panic (hTo.symm.trans hPoint)
    obtain ⟨-, hZero | ⟨msg, rfl⟩ | ⟨rfl, hBoot⟩⟩ | ⟨-, hWaiting⟩ | ⟨-, hWaiting⟩ := t.probed_cases now r
    · exact .inr ⟨hPanic.1, hZero, hPanic.2⟩
    · cases hPoint
      exact .inl ⟨msg, rfl, rfl⟩
    · simp [probed, hBoot] at hPoint
    · rw [hWaiting] at hPoint
      cases hPoint
    · rw [hWaiting] at hPoint
      cases hPoint
  · rw [hTo] at hPoint
    cases hPoint
  · rw [hTo] at hPoint
    cases hPoint
    exact .inl ⟨msg, rfl, rfl⟩

theorem eq_of_collected {outcome : CollectOutcome} {f : FatalSignal} {resume : Resume}
    (hPoint : (t.collected outcome).point = .reporting f resume) :
    resume = .loop ∧ ∃ reason, outcome.reason = some reason ∧ f = ⟨t.desc.name, reason⟩ := by
  cases outcome with
  | ok => cases hPoint
  | err _ | panicked =>
    simp only [collected, point_handleFailure] at hPoint
    split_ifs at hPoint
    cases hPoint
    exact ⟨rfl, _, rfl, rfl⟩

end Task

namespace Life

variable {desc : SourceDescriptor} {origin : Origin} {criticalThreshold : UInt32} {l l' : Life}
  {lives : List LifeEvent} {e : LifeEvent}

/-- What a life keeps, and what it will be reported for, is in the steps it has taken. -/
structure Recorded (desc : SourceDescriptor) (origin : Origin) (criticalThreshold : UInt32)
    (es : List TaskEvent) (l : Life) : Prop where
  tracked : Tracked desc origin criticalThreshold l
  outcomes : l.outcomes = es.filterMap TaskEvent.outcome
  probe : l.probe = (es.filterMap TaskEvent.answer).getLast?
  cause : ∀ f resume, l.task.point = .reporting f resume → Cause desc criticalThreshold es f

theorem recorded_spawn :
    Recorded desc origin criticalThreshold [] (spawn desc origin criticalThreshold) :=
  ⟨tracked_spawn, rfl, rfl, nofun⟩

theorem Recorded.cause_of_act {es : List TaskEvent} (h : Recorded desc origin criticalThreshold es l)
    {now : Nat} {room : Bool} {e : TaskEvent} {t' : Task} {fatal : Option FatalSignal}
    (hAct : Task.Act now room l.task e t' fatal) {f : FatalSignal} {resume : Resume}
    (hPoint' : t'.point = .reporting f resume) : Cause desc criticalThreshold (es ++ [e]) f := by
  have hDesc := h.tracked.desc
  cases hAct with
  | probed r hPoint =>
    obtain ⟨msg, rfl, rfl⟩ | ⟨hCritical, hZero, rfl⟩ := Task.eq_of_probed hPoint'
    · rw [hDesc]
      exact .probe msg (List.mem_append_right _ List.mem_cons_self)
    · rw [hDesc] at hCritical hZero ⊢
      exact .panic hCritical (.inr hZero)
  | probePanicked hPoint | retirePanicked _ _ hPoint =>
    obtain ⟨hCritical, rfl⟩ := Task.eq_of_panic hPoint'
    rw [hDesc] at hCritical ⊢
    exact .panic hCritical (.inl (List.mem_append_right _ List.mem_cons_self))
  | collected outcome hPoint =>
    obtain ⟨rfl, reason, hReason, rfl⟩ := Task.eq_of_collected hPoint'
    have hCritical : desc.criticality = .critical := by
      cases hCriticality : desc.criticality with
      | critical => rfl
      | optional =>
        rw [l.task.point_collected_of_optional (hDesc ▸ hCriticality)] at hPoint'
        cases hPoint'
    rw [hDesc] at hPoint' ⊢
    have hStreak := (h.tracked.reports_iff hCritical hPoint outcome).mp ⟨reason, hPoint'⟩
    refine .failures hCritical l.outcomes outcome reason ?_ hStreak hReason
    rw [List.filterMap_append, h.outcomes]
    exact List.prefix_refl _
  | ticked hPoint hDue =>
    obtain hTo | ⟨wake, hTo⟩ := l.task.point_ticked now
    · rw [hTo] at hPoint'
      cases hPoint'
    · rw [hTo] at hPoint'
      cases hPoint'
  | emitted signal hPoint =>
    rw [show (l.task.emit .collect signal).point = l.task.point from rfl, hPoint] at hPoint'
    cases hPoint'
  | reported _ resume' _ _ => cases resume' <;> cases hPoint'
  | stopSeen _ _ _ | woke _ _ _ | terminal _ _ _ _ | retired _ _ => cases hPoint'

theorem recorded_of_act {es : List TaskEvent} (hAct : Act l e l')
    (h : Recorded desc origin criticalThreshold es l) :
    Recorded desc origin criticalThreshold (es ++ e.taken.toList) l' := by
  have hTracked := tracked_of_act hAct h.tracked
  cases hAct with
  | own now room e t' fatal hTaskAct =>
    refine ⟨hTracked, ?_, ?_, fun f resume hPoint => h.cause_of_act hTaskAct hPoint⟩
    · cases e with
      | collected outcome => simp [record, LifeEvent.taken, TaskEvent.outcome, h.outcomes]
      | _ => simpa [record, LifeEvent.taken, List.filterMap_cons, TaskEvent.outcome] using h.outcomes
    · cases e with
      | probed r => simp [record, LifeEvent.taken, TaskEvent.answer]
      | _ => simpa [record, LifeEvent.taken, List.filterMap_cons, TaskEvent.answer] using h.probe
  | stopped stop =>
    simp only [LifeEvent.taken, Option.toList_none, List.append_nil]
    exact ⟨hTracked, h.outcomes, h.probe, h.cause⟩
  | aborted hUnfinished =>
    simp only [LifeEvent.taken, Option.toList_none, List.append_nil]
    exact ⟨hTracked, h.outcomes, h.probe, fun f resume hPoint => by cases hPoint⟩

theorem recorded_of_run (hRun : Run step Any (spawn desc origin criticalThreshold) lives l) :
    Recorded desc origin criticalThreshold (lives.filterMap LifeEvent.taken) l := by
  refine hRun.history (I := fun lives l =>
    Recorded desc origin criticalThreshold (lives.filterMap LifeEvent.taken) l) recorded_spawn ?_
  intro lives l e l' h _ hStep
  have hNext := recorded_of_act (act_of_step hStep) h
  rw [List.filterMap_append]
  cases hTaken : e.taken <;> simpa [hTaken] using hNext

end Life

namespace Process

/-- The steps that are those of one task. -/
def own (i : Nat) : ProcessEvent → Option TaskEvent
  | .task j e => if j = i then some e else none
  | _ => none

/-- The task has come out of a life in which it took these steps. -/
def LivedOn (criticalThreshold : UInt32) (es : List TaskEvent) (t : Task) : Prop :=
  ∃ lives l, Run Life.step Any (.spawn t.desc t.origin criticalThreshold) lives l ∧ l.task = t ∧
    lives.filterMap LifeEvent.taken = es

/-- What happens to a task in a process, happens to it in a life of its own. -/
structure Apart (criticalThreshold : UInt32) (events : List ProcessEvent) (p : Process) : Prop where
  threshold : p.supervisor.criticalThreshold = criticalThreshold
  fresh : ∀ i, p.supervisor.tasks.length ≤ i → events.filterMap (own i) = []
  lived : ∀ (i : Nat) (t : Task), p.supervisor.tasks[i]? = some t →
    LivedOn criticalThreshold (events.filterMap (own i)) t
  sent : ∀ i f, (i, f) ∈ p.sent → ∃ t, p.supervisor.tasks[i]? = some t ∧
    Cause t.desc criticalThreshold (events.filterMap (own i)) f

variable {criticalThreshold : UInt32} {p p' : Process} {e : ProcessEvent} {i : Nat}
  {events : List ProcessEvent}

theorem LivedOn.snoc {es : List TaskEvent} {t t' : Task} (h : LivedOn criticalThreshold es t)
    (hDesc : t'.desc = t.desc) (hOrigin : t'.origin = t.origin) (step : LifeEvent)
    (hStep : ∀ l : Life, l.task = t → ∃ l', l.step step = some l' ∧ l'.task = t') :
    LivedOn criticalThreshold (es ++ step.taken.toList) t' := by
  obtain ⟨lives, l, hRun, rfl, rfl⟩ := h
  obtain ⟨l', hTake, rfl⟩ := hStep l rfl
  refine ⟨lives ++ [step], l', ?_, rfl, ?_⟩
  · rw [hDesc, hOrigin]
    exact hRun.snoc trivial hTake
  · rw [List.filterMap_append]
    cases hTaken : step.taken <;> simp [hTaken]

theorem LivedOn.kept {es : List TaskEvent} {t t' : Task} (h : LivedOn criticalThreshold es t)
    (hDesc : t'.desc = t.desc) (hOrigin : t'.origin = t.origin) (step : LifeEvent)
    (hTaken : step.taken = none)
    (hStep : ∀ l : Life, l.task = t → ∃ l', l.step step = some l' ∧ l'.task = t') :
    LivedOn criticalThreshold es t' := by
  have hNext := h.snoc hDesc hOrigin step hStep
  rwa [hTaken, Option.toList_none, List.append_nil] at hNext

theorem criticalThreshold_of_act (hAct : Act p e p') :
    p'.supervisor.criticalThreshold = p.supervisor.criticalThreshold := by
  cases hAct with
  | spawnBoot s hRunning hAct | command cmd s hRunning hAct | joined s hRunning hAct =>
    cases hAct <;> rfl
  | timedOut r hRunning hRemoval hUnfinished | aborts name result j hStage hName =>
    unfold abort
    split_ifs <;> rfl
  | _ => rfl

/-- A step of a task moves this task. -/
theorem moved_of_own {e' : TaskEvent} (hAct : Act p e p') (hOwn : own i e = some e') :
    ∃ t t' fatal, p.supervisor.tasks[i]? = some t ∧ p'.supervisor.tasks[i]? = some t' ∧
      t.step p.supervisor.now p.fatalRoom e' = some (t', fatal) := by
  cases hAct with
  | task j e t t' fatal hBusy hTask hStep =>
    simp only [own] at hOwn
    split_ifs at hOwn with hij
    cases hOwn
    subst hij
    have hLt := (List.getElem?_eq_some_iff.mp hTask).1
    exact ⟨t, t', fatal, hTask, List.getElem?_set_self hLt, hStep⟩
  | _ => cases hOwn

theorem Apart.lived_of_act (h : Apart criticalThreshold events p) (hAct : Act p e p') {t' : Task}
    (hTask' : p'.supervisor.tasks[i]? = some t') :
    LivedOn criticalThreshold ((events ++ [e]).filterMap (own i)) t' := by
  rw [List.filterMap_append]
  cases hOwn : own i e with
  | some e' =>
    obtain ⟨t, u, fatal, hTask, hu, hStep⟩ := moved_of_own hAct hOwn
    obtain rfl := Option.some.inj (hu.symm.trans hTask')
    have hSame := (Task.step_spec hStep).1
    have hNext := (h.lived i t hTask).snoc hSame.desc hSame.origin
      (.own p.supervisor.now p.fatalRoom e') fun l hl => by
        subst hl
        exact ⟨_, Life.step_own hStep, rfl⟩
    simpa [hOwn, LifeEvent.taken] using hNext
  | none =>
    rw [show [e].filterMap (own i) = [] by simp [hOwn], List.append_nil]
    obtain ⟨t, hTask, hEffect⟩ | ⟨rfl, desc, origin, rfl, -⟩ := effect_of_act hAct hTask'
    · have hLived := h.lived i t hTask
      cases hEffect with
      | same => exact hLived
      | removed name hEvent hName =>
        refine hLived.kept rfl rfl (.stopped .sent) rfl fun l hl => ?_
        subst hl
        exact ⟨_, rfl, rfl⟩
      | dropped result hStage =>
        refine hLived.kept rfl rfl (.stopped .dropped) rfl fun l hl => ?_
        subst hl
        exact ⟨_, rfl, rfl⟩
      | aborted hUnfinished hWhy =>
        refine hLived.kept rfl rfl .aborted rfl fun l hl => ?_
        subst hl
        exact ⟨_, if_neg (by simp [hUnfinished]), rfl⟩
      | moved e' _ fatal hEvent hTaskAct hSent => simp [own, hEvent] at hOwn
    · rw [h.fresh _ le_rfl, h.threshold]
      exact ⟨[], _, .nil, rfl, rfl⟩

theorem apart_of_act (hAct : Act p e p') (h : Apart criticalThreshold events p) :
    Apart criticalThreshold (events ++ [e]) p' where
  threshold := (criticalThreshold_of_act hAct).trans h.threshold
  fresh i hLength := by
    have hOld := (length_le_of_act hAct).trans hLength
    cases hOwn : own i e with
    | none => simp [h.fresh i hOld, hOwn]
    | some e' =>
      obtain ⟨t, -, -, hTask, -⟩ := moved_of_own hAct hOwn
      have hLt := (List.getElem?_eq_some_iff.mp hTask).1
      omega
  lived i t' hTask' := h.lived_of_act hAct hTask'
  sent i f hSent := by
    have hCause {t : Task} (hTask : p.supervisor.tasks[i]? = some t)
        (hOf : Cause t.desc criticalThreshold (events.filterMap (own i)) f) :
        ∃ t', p'.supervisor.tasks[i]? = some t' ∧
          Cause t'.desc criticalThreshold ((events ++ [e]).filterMap (own i)) f := by
      obtain ⟨t', hTask', hEffect⟩ := effect_of_task hAct hTask
      refine ⟨t', hTask', ?_⟩
      rw [hEffect.desc, List.filterMap_append]
      exact hOf.append _
    obtain hOld | ⟨t, resume, hTask, hPoint⟩ := sent_of_act hAct hSent
    · obtain ⟨t, hTask, hOf⟩ := h.sent i f hOld
      exact hCause hTask hOf
    · obtain ⟨lives, l, hRun, rfl, hTaken⟩ := h.lived i t hTask
      have hOf := (Life.recorded_of_run hRun).cause f resume hPoint
      rw [hTaken] at hOf
      exact hCause hTask hOf

theorem apart_of_run {boot : List SourceDescriptor}
    (hRun : Run step Any (new criticalThreshold boot) events p) : Apart criticalThreshold events p := by
  refine hRun.history ⟨rfl, fun _ _ => rfl, fun i t hTask => ?_, fun _ _ hSent => ?_⟩ ?_
  · simp [new, Supervisor.new] at hTask
  · cases hSent
  · intro events p e p' h _ hStep
    exact apart_of_act (act_of_step hStep) h

/-- In a whole process, with any other tasks and through the shutdown, a task comes out of a life of its
own in which it took the steps it took; and while it is in its loop, its breaker counts the failures its
own collections end with, and its next delay is the one they ask for. -/
theorem a_source_fails_alone (criticalThreshold : UInt32) (boot : List SourceDescriptor)
    (events : List ProcessEvent) (p : Process)
    (hRun : Run step Any (new criticalThreshold boot) events p) (i : Nat) (t : Task)
    (hTask : p.supervisor.tasks[i]? = some t) :
    LivedOn criticalThreshold (events.filterMap (own i)) t ∧
    (t.live →
      t.breaker.consecutiveFailures.toNat = min (streak CollectOutcome.failed
        ((events.filterMap (own i)).filterMap TaskEvent.outcome)) u32Max ∧
      (if t.breaker.isOpen then t.breaker.backoff else 0) = retryDelay CollectOutcome.failed
        (((events.filterMap (own i)).filterMap TaskEvent.answer).getLast?.any (· ≠ .ready))
        ((events.filterMap (own i)).filterMap TaskEvent.outcome)) := by
  have hLived := (apart_of_run hRun).lived i t hTask
  refine ⟨hLived, fun hLive => ?_⟩
  obtain ⟨lives, l, hLife, rfl, hTaken⟩ := hLived
  have hRecorded := Life.recorded_of_run hLife
  have hTracks := hRecorded.tracked.breaker hLive
  rw [hTaken] at hRecorded
  rw [Life.tripped, hRecorded.outcomes, hRecorded.probe] at hTracks
  exact ⟨hTracks.failures, hTracks.delay⟩

/-- Every fatal signal that was ever sent has its cause in the steps of the task it came from, however
much the other sources fail: a fatal probe, a panic, or a collection that ended as many failures in a row
as the threshold asks for, and whose own words it carries. -/
theorem a_death_has_its_cause (criticalThreshold : UInt32) (boot : List SourceDescriptor)
    (events : List ProcessEvent) (p : Process)
    (hRun : Run step Any (new criticalThreshold boot) events p) (i : Nat) (f : FatalSignal)
    (hSent : (i, f) ∈ p.sent) :
    ∃ t, p.supervisor.tasks[i]? = some t ∧
      Cause t.desc criticalThreshold (events.filterMap (own i)) f :=
  (apart_of_run hRun).sent i f hSent

section Sample

/-- The container panics while the host fails its one collection. -/
def hostFails : List ProcessEvent :=
  [.spawnBoot, .spawnBoot, .polled 1, .polled 0, .task 0 (.probed .ready), .task 1 (.probed .ready),
    .task 1 .ticked, .task 0 .ticked, .task 1 (.collected .panicked),
    .task 0 (.collected (.err (.failed "no /proc"))), .task 0 .reported]

theorem a_host_fails_alone : ∃ t,
    (after step (new 1 [hostDescriptor, containerDescriptor]) hostFails).supervisor.tasks[0]? = some t ∧
      t.breaker.consecutiveFailures.toNat = 1 := by
  refine ⟨_, rfl, ?_⟩
  have hAlone := (a_source_fails_alone 1 [hostDescriptor, containerDescriptor] hostFails _ (run_after rfl)
    0 _ rfl).2 rfl
  exact hAlone.1

theorem a_host_dies_of_its_failure :
    Cause hostDescriptor 1 [.probed .ready, .ticked, .collected (.err (.failed "no /proc")), .reported]
      ⟨"host", "collection failed: no /proc"⟩ := by
  obtain ⟨t, hTask, hCause⟩ := a_death_has_its_cause 1 [hostDescriptor, containerDescriptor] hostFails _
    (run_after rfl) 0 ⟨"host", "collection failed: no /proc"⟩ (by decide)
  obtain rfl := Option.some.inj hTask
  exact hCause

end Sample

end Process

end HarnessSphere
