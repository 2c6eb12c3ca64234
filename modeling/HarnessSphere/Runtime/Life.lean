import HarnessSphere.Runtime.Supervisor

/-! # The life of one task

A task from its spawn on, whatever the supervisor does to it: it takes its own steps, it is handed a
stop, it may be aborted. The life keeps what the task itself forgets, so that the breaker and the
schedule can be compared with the whole history of collections.
-/

namespace HarnessSphere

open Machine

inductive LifeEvent where
  | own (now : Nat) (room : Bool) (e : TaskEvent)
  | stopped (stop : Stop)
  | aborted
  deriving DecidableEq, Repr

/-- The stop branch of the loop, or an abort. -/
def LifeEvent.leaves : LifeEvent → Bool
  | .own _ _ (.stopSeen _) | .aborted => true
  | _ => false

/-- `probe` is what the probe returned, `ticks` the ticks consumed and `tickedAt` the time of the last
one, `begun` the calls of `collect` begun and `outcomes` how the completed ones ended. -/
structure Life where
  task : Task
  probe : Option ProbeResult
  ticks : Nat
  tickedAt : Nat
  begun : Nat
  outcomes : List CollectOutcome

namespace Life

def spawn (desc : SourceDescriptor) (origin : Origin) (criticalThreshold : UInt32) : Life where
  task := .spawn desc origin criticalThreshold
  probe := none
  ticks := 0
  tickedAt := 0
  begun := 0
  outcomes := []

def record (l : Life) (now : Nat) (e : TaskEvent) (t' : Task) : Life where
  task := t'
  probe := match e with
    | .probed r => some r
    | _ => l.probe
  ticks := if e = .ticked then l.ticks + 1 else l.ticks
  tickedAt := if e = .ticked then now else l.tickedAt
  begun := if t'.point = .collecting ∧ l.task.point ≠ .collecting then l.begun + 1 else l.begun
  outcomes := match e with
    | .collected outcome => l.outcomes ++ [outcome]
    | _ => l.outcomes

@[simp] theorem task_record (l : Life) (now : Nat) (e : TaskEvent) (t' : Task) :
    (l.record now e t').task = t' := rfl

def step (l : Life) : LifeEvent → Option Life
  | .own now room e => (l.task.step now room e).map fun (t', _) => l.record now e t'
  | .stopped stop => some { l with task := { l.task with stop := stop } }
  | .aborted =>
    if l.task.finished then none
    else some { l with task := { l.task with point := .ended .aborted } }

/-- The probe returned, and it did not return `Ready`. -/
def tripped (l : Life) : Bool := l.probe.any (· ≠ .ready)

/-- What the task waits at its next tick. -/
def delay (l : Life) : Duration := retryDelay CollectOutcome.failed l.tripped l.outcomes

inductive Act (l : Life) : LifeEvent → Life → Prop where
  | own (now : Nat) (room : Bool) (e : TaskEvent) (t' : Task) (fatal : Option FatalSignal)
      (hAct : Task.Act now room l.task e t' fatal) : Act l (.own now room e) (l.record now e t')
  | stopped (stop : Stop) : Act l (.stopped stop) { l with task := { l.task with stop := stop } }
  | aborted (hUnfinished : l.task.finished = false) :
      Act l .aborted { l with task := { l.task with point := .ended .aborted } }

theorem act_of_step {l l' : Life} {e : LifeEvent} (h : l.step e = some l') : Act l e l' := by
  cases e with
  | own now room e =>
    obtain ⟨⟨t', fatal⟩, hStep, rfl⟩ := Option.map_eq_some_iff.mp h
    exact .own now room e t' fatal (Task.act_of_step hStep)
  | stopped stop =>
    cases h
    exact .stopped stop
  | aborted =>
    unfold step at h
    dsimp only at h
    split_ifs at h with hFinished
    cases h
    exact .aborted (by simpa using hFinished)

/-- As long as the task is in its loop, the breaker tells the failures the history ends with. -/
structure Tracked (desc : SourceDescriptor) (origin : Origin) (criticalThreshold : UInt32)
    (l : Life) : Prop where
  desc : l.task.desc = desc
  origin : l.task.origin = origin
  fresh : l.task.point = .probing → l.probe = none ∧ l.outcomes = []
  breaker : l.task.live →
    CircuitBreaker.Tracks CollectOutcome.failed criticalThreshold l.tripped l.outcomes l.task.breaker

variable {desc : SourceDescriptor} {origin : Origin} {criticalThreshold : UInt32}

theorem tracked_spawn : Tracked desc origin criticalThreshold (spawn desc origin criticalThreshold) :=
  ⟨rfl, rfl, fun _ => ⟨rfl, rfl⟩, fun _ => CircuitBreaker.tracks_new _ _⟩

theorem Tracked.quiet {l l' : Life} (h : Tracked desc origin criticalThreshold l)
    (hSame : l'.task.desc = l.task.desc ∧ l'.task.origin = l.task.origin)
    (hProbe : l'.probe = l.probe) (hOutcomes : l'.outcomes = l.outcomes)
    (hFresh : l'.task.point = .probing → l.task.point = .probing)
    (hLive : l'.task.live → l.task.live ∧ l'.task.breaker = l.task.breaker) :
    Tracked desc origin criticalThreshold l' := by
  refine ⟨hSame.1.trans h.desc, hSame.2.trans h.origin, ?_, ?_⟩
  · intro hProbing
    rw [hProbe, hOutcomes]
    exact h.fresh (hFresh hProbing)
  · intro hLive'
    obtain ⟨hFrom, hBreaker⟩ := hLive hLive'
    rw [tripped, hProbe, hOutcomes, hBreaker]
    exact h.breaker hFrom

/-- Out of its loop, a task owes nothing more. -/
theorem Tracked.over {l l' : Life} (h : Tracked desc origin criticalThreshold l)
    (hSame : l'.task.desc = l.task.desc ∧ l'.task.origin = l.task.origin)
    (hProbe : l'.probe = l.probe) (hOutcomes : l'.outcomes = l.outcomes)
    (hOver : l'.task.live = false) : Tracked desc origin criticalThreshold l' := by
  apply h.quiet hSame hProbe hOutcomes
  · intro hProbing
    simp [Task.live, hProbing] at hOver
  · intro hLive
    rw [hOver] at hLive
    cases hLive

theorem Tracked.probed {l : Life} (h : Tracked desc origin criticalThreshold l)
    (hPoint : l.task.point = .probing) (now : Nat) (r : ProbeResult) :
    Tracked desc origin criticalThreshold (l.record now (.probed r) (l.task.probed now r)) := by
  obtain ⟨hSame, -, -⟩ := l.task.probed_spec now r
  obtain ⟨hProbe, hOutcomes⟩ := h.fresh hPoint
  have hBreaker := h.breaker (by simp [Task.live, hPoint])
  rw [tripped, hProbe, hOutcomes] at hBreaker
  refine ⟨hSame.desc.trans h.desc, hSame.origin.trans h.origin, ?_, ?_⟩
  all_goals
    rw [task_record]
    obtain ⟨hFailed, -⟩ | ⟨rfl, hTo⟩ | ⟨hReady, hTo⟩ := l.task.probed_cases now r
  · intro hProbing
    exact absurd hProbing (Task.not_probing_of_failed hFailed)
  · simp [hTo]
  · simp [hTo]
  · intro hLive
    exact absurd hLive (Task.not_live_of_failed hFailed)
  · intro _
    simpa [record, tripped, hTo, hOutcomes] using hBreaker
  · intro _
    simpa [record, tripped, hTo, hOutcomes, hReady] using hBreaker.tripOpen

theorem Tracked.collected {l : Life} (h : Tracked desc origin criticalThreshold l)
    (hPoint : l.task.point = .collecting) (now : Nat) (outcome : CollectOutcome) :
    Tracked desc origin criticalThreshold
      (l.record now (.collected outcome) (l.task.collected outcome)) := by
  obtain ⟨hSame, -, hLive⟩ := l.task.collected_spec outcome
  have hBreaker := h.breaker (by simp [Task.live, hPoint])
  refine ⟨hSame.desc.trans h.desc, hSame.origin.trans h.origin, ?_, ?_⟩
  · intro hProbing
    obtain hWaiting | ⟨reason, hReporting⟩ := l.task.point_collected outcome
    · rw [task_record, hWaiting] at hProbing
      cases hProbing
    · rw [task_record, hReporting] at hProbing
      cases hProbing
  · intro _
    rw [task_record, Task.breaker_collected]
    split_ifs with hFailed
    · exact hBreaker.failure hFailed
    · exact hBreaker.success hFailed

theorem Tracked.own {l : Life} (h : Tracked desc origin criticalThreshold l) {now : Nat} {room : Bool}
    {e : TaskEvent} {t' : Task} {fatal : Option FatalSignal}
    (hAct : Task.Act now room l.task e t' fatal) :
    Tracked desc origin criticalThreshold (l.record now e t') := by
  cases hAct with
  | probed r hPoint => exact h.probed hPoint now r
  | collected outcome hPoint => exact h.collected hPoint now outcome
  | probePanicked hPoint | retirePanicked _ _ hPoint =>
    obtain ⟨hSame, hFailed, -⟩ := l.task.panic_spec
    exact h.over ⟨hSame.desc, hSame.origin⟩ rfl rfl
      (Bool.eq_false_iff.mpr (Task.not_live_of_failed hFailed))
  | ticked hPoint hDue =>
    refine h.quiet ⟨rfl, rfl⟩ rfl rfl ?_ fun _ => ⟨by simp [Task.live, hPoint], rfl⟩
    intro hProbing
    rw [task_record, Task.ticked] at hProbing
    split at hProbing <;> cases hProbing
  | woke _ hPoint =>
    refine h.quiet ⟨rfl, rfl⟩ rfl rfl ?_ fun _ => ⟨by simp [Task.live, hPoint], rfl⟩
    intro hProbing
    cases hProbing
  | emitted signal hPoint =>
    refine h.quiet ⟨rfl, rfl⟩ rfl rfl id fun hLive => ⟨hLive, rfl⟩
  | reported fatal resume hPoint hRoom =>
    refine h.quiet ⟨rfl, rfl⟩ rfl rfl ?_ ?_ <;> cases resume <;> simp [Resume.point, Task.live, hPoint]
  | stopSeen _ _ _ | terminal _ _ _ _ | retired _ _ => exact h.over ⟨rfl, rfl⟩ rfl rfl rfl

theorem tracked_of_act {l l' : Life} {e : LifeEvent} (hAct : Act l e l')
    (h : Tracked desc origin criticalThreshold l) : Tracked desc origin criticalThreshold l' := by
  cases hAct with
  | own now room e t' fatal hAct => exact h.own hAct
  | stopped stop => exact h.quiet ⟨rfl, rfl⟩ rfl rfl id fun hLive => ⟨hLive, rfl⟩
  | aborted hUnfinished => exact h.over ⟨rfl, rfl⟩ rfl rfl rfl

theorem tracked_of_run {ok : Life → LifeEvent → Prop} {events : List LifeEvent} {l : Life}
    (hRun : Run step ok (spawn desc origin criticalThreshold) events l) :
    Tracked desc origin criticalThreshold l :=
  hRun.invariant tracked_spawn fun _ _ _ h _ hStep => tracked_of_act (act_of_step hStep) h

/-- Every tick is followed by one collection, at once or after a sleep. -/
structure Counted (l : Life) : Prop where
  ticks : l.task.point ≠ .ended .aborted → l.ticks = l.begun + if l.task.point.sleeps then 1 else 0
  begun : l.task.point ≠ .ended .aborted →
    l.begun = l.outcomes.length + if l.task.point = .collecting then 1 else 0

theorem counted_spawn : Counted (spawn desc origin criticalThreshold) := ⟨fun _ => rfl, fun _ => rfl⟩

theorem Counted.idle {l : Life} (h : Counted l) (hUnfinished : l.task.finished = false)
    (hIdle : l.task.idle) {now : Nat} {e : TaskEvent} {t' : Task} (hIdle' : t'.idle)
    (hTicks : (l.record now e t').ticks = l.ticks)
    (hOutcomes : (l.record now e t').outcomes = l.outcomes) : Counted (l.record now e t') := by
  obtain ⟨hAwake, hFree⟩ := Task.of_idle hIdle
  obtain ⟨hAwake', hFree'⟩ := Task.of_idle hIdle'
  have hPoint : l.task.point ≠ .ended .aborted := by
    intro hPoint
    simp [Task.finished, hPoint] at hUnfinished
  have hBegun : (l.record now e t').begun = l.begun := by simp [record, hFree']
  refine ⟨fun _ => ?_, fun _ => ?_⟩
  · rw [hTicks, hBegun, h.ticks hPoint, task_record, hAwake, hAwake']
  · rw [hBegun, hOutcomes, h.begun hPoint, task_record, if_neg hFree, if_neg hFree']

theorem counted_of_act {l l' : Life} {e : LifeEvent} (hAct : Act l e l') (h : Counted l) :
    Counted l' := by
  cases hAct with
  | stopped stop => exact ⟨h.ticks, h.begun⟩
  | aborted hUnfinished => exact ⟨fun hPoint => absurd rfl hPoint, fun hPoint => absurd rfl hPoint⟩
  | own now room e t' fatal hAct =>
    cases hAct with
    | ticked hPoint hDue =>
      have hTicks := h.ticks (by simp [hPoint])
      have hBegun := h.begun (by simp [hPoint])
      simp only [hPoint, Point.sleeps] at hTicks hBegun
      refine ⟨fun _ => ?_, fun _ => ?_⟩ <;> cases hOpen : l.task.breaker.isOpen <;>
        simp [record, Task.ticked, hOpen, hPoint, Point.sleeps, hTicks, hBegun]
    | woke wake hPoint hDue =>
      have hTicks := h.ticks (by simp [hPoint])
      have hBegun := h.begun (by simp [hPoint])
      simp only [hPoint, Point.sleeps, if_true] at hTicks hBegun
      exact ⟨fun _ => by simp [record, hPoint, Point.sleeps, hTicks],
        fun _ => by simp [record, hPoint, hBegun]⟩
    | emitted signal hPoint =>
      have hBegun : (l.record now (.emitted signal) (l.task.emit .collect signal)).begun =
          l.begun := by
        simp [record, hPoint]
      refine ⟨fun hUnaborted => ?_, fun hUnaborted => ?_⟩ <;> rw [hBegun]
      · exact h.ticks hUnaborted
      · exact h.begun hUnaborted
    | collected outcome hPoint =>
      have hTicks := h.ticks (by simp [hPoint])
      have hBegun := h.begun (by simp [hPoint])
      have hIdle := Task.idle_collected l.task outcome
      obtain ⟨hAwake, hFree⟩ := Task.of_idle hIdle
      simp only [hPoint, Point.sleeps, if_true] at hTicks hBegun
      exact ⟨fun _ => by simp [record, hPoint, hAwake, hTicks],
        fun _ => by simp [record, hFree, hBegun]⟩
    | probed r hPoint =>
      exact h.idle (by simp [Task.finished, hPoint]) (by simp [Task.idle, hPoint])
        (l.task.idle_probed now r) rfl rfl
    | probePanicked hPoint | retirePanicked _ _ hPoint =>
      exact h.idle (by simp [Task.finished, hPoint]) (by simp [Task.idle, hPoint])
        (Task.idle_of_failed l.task.panic_spec.2.1) rfl rfl
    | reported fatal resume hPoint hRoom =>
      refine h.idle (by simp [Task.finished, hPoint]) (by simp [Task.idle, hPoint]) ?_ rfl rfl
      cases resume <;> rfl
    | stopSeen terminal hPoint | terminal _ _ _ hPoint | retired _ hPoint =>
      exact h.idle (by simp [Task.finished, hPoint]) (by simp [Task.idle, hPoint]) rfl rfl rfl

theorem step_own {l : Life} {now : Nat} {room : Bool} {e : TaskEvent} {t' : Task}
    {fatal : Option FatalSignal} (h : l.task.step now room e = some (t', fatal)) :
    l.step (.own now room e) = some (l.record now e t') := by
  rw [step, h]
  rfl

theorem exists_collected (l : Life) (hPoint : l.task.point = .collecting) (outcome : CollectOutcome) :
    ∃ events l', Run step Any l events l' ∧ l'.probe = l.probe ∧
      l'.outcomes = l.outcomes ++ [outcome] ∧ l'.task.point = .waiting := by
  have hStep : l.task.step 0 true (.collected outcome) = some (l.task.collected outcome, none) := by
    simp only [Task.step, hPoint]
  have hCollected : Run step Any l _ _ := .single trivial (step_own hStep)
  obtain hWaiting | ⟨reason, hReporting⟩ := l.task.point_collected outcome
  · exact ⟨_, _, hCollected, rfl, rfl, hWaiting⟩
  · have hReported := Task.step_of_reporting hReporting 0 true .reported
    exact ⟨_, _, hCollected.snoc trivial (step_own hReported), rfl, rfl, rfl⟩

/-- One round of the loop: the tick, the backoff, the collection and, where it is due, the report. -/
theorem exists_round (l : Life) (hPoint : l.task.point = .waiting) (outcome : CollectOutcome) :
    ∃ events l', Run step Any l events l' ∧ l'.probe = l.probe ∧
      l'.outcomes = l.outcomes ++ [outcome] ∧ l'.task.point = .waiting := by
  have hStep : l.task.step l.task.tick true .ticked = some (l.task.ticked l.task.tick, none) := by
    simp only [Task.step, hPoint, le_refl, if_true]
  have hTicked : Run step Any l _ _ := .single trivial (step_own hStep)
  cases hOpen : l.task.breaker.isOpen with
  | false =>
    have hCollecting : (l.task.ticked l.task.tick).point = .collecting := by
      simp [Task.ticked, hOpen]
    obtain ⟨events, l', hRun, hRest⟩ := exists_collected
      (l.record l.task.tick .ticked (l.task.ticked l.task.tick)) hCollecting outcome
    exact ⟨_, l', hTicked.append hRun, hRest⟩
  | true =>
    have hSleeping : (l.task.ticked l.task.tick).point =
        .sleeping (l.task.tick + l.task.breaker.backoff) := by
      simp [Task.ticked, hOpen]
    have hWoke : (l.task.ticked l.task.tick).step (l.task.tick + l.task.breaker.backoff) true .woke =
        some ({ l.task.ticked l.task.tick with point := .collecting }, none) := by
      simp only [Task.step, hSleeping, le_refl, if_true]
    obtain ⟨events, l', hRun, hRest⟩ := exists_collected
      ((l.record l.task.tick .ticked (l.task.ticked l.task.tick)).record _ .woke
        { l.task.ticked l.task.tick with point := .collecting }) rfl outcome
    exact ⟨_, l', (hTicked.snoc trivial (step_own hWoke)).append hRun, hRest⟩

/-- Every sequence of outcomes occurs, after either answer of the probe. -/
theorem exists_history (desc : SourceDescriptor) (hInterval : 0 < desc.defaultInterval)
    (origin : Origin) (criticalThreshold : UInt32) (r : ProbeResult)
    (hProbe : r = .ready ∨ ∃ msg, r = .unavailable msg) (outcomes : List CollectOutcome) :
    ∃ events l, Run step Any (spawn desc origin criticalThreshold) events l ∧ l.probe = some r ∧
      l.outcomes = outcomes ∧ l.task.point = .waiting := by
  induction outcomes using List.reverseRecOn with
  | nil =>
    have hNonzero : desc.defaultInterval ≠ 0 := Nat.ne_of_gt hInterval
    refine ⟨[.own 0 true (.probed r)], _, .single trivial rfl, rfl, rfl, ?_⟩
    obtain rfl | ⟨msg, rfl⟩ := hProbe
    · simp [spawn, Task.spawn, Task.probed, Task.enterLoop, hNonzero]
    · simp [spawn, Task.spawn, Task.probed, Task.enterLoop, hNonzero]
  | append_singleton outcomes outcome ih =>
    obtain ⟨events, l, hRun, hProbed, rfl, hPoint⟩ := ih
    obtain ⟨more, l', hMore, hSame, hOutcomes, hPoint'⟩ := l.exists_round hPoint outcome
    exact ⟨_, l', hRun.append hMore, hSame.trans hProbed, hOutcomes, hPoint'⟩

/-- What the task of a life can have become. -/
def Lived (criticalThreshold : UInt32) (t : Task) : Prop :=
  ∃ desc origin events l,
    Run step Any (spawn desc origin criticalThreshold) events l ∧ l.task = t

theorem Lived.evolve {t t' : Task} (h : Lived criticalThreshold t) (hEvolves : Supervisor.Evolves t t') :
    Lived criticalThreshold t' := by
  obtain ⟨desc, origin, events, l, hRun, rfl⟩ := h
  cases hEvolves with
  | same => exact ⟨desc, origin, events, l, hRun, rfl⟩
  | stopped => exact ⟨desc, origin, _, _, hRun.snoc (l := .stopped .sent) trivial rfl, rfl⟩
  | aborted hUnfinished =>
    have hStep : l.step .aborted =
        some { l with task := { l.task with point := .ended .aborted } } := by
      simp [step, hUnfinished]
    exact ⟨desc, origin, _, _, hRun.snoc trivial hStep, rfl⟩
  | moved now room e _ fatal hStep =>
    exact ⟨desc, origin, _, _, hRun.snoc trivial (step_own hStep), rfl⟩

/-- Every task of a supervisor before shutdown has lived such a life. -/
theorem lived_of_reaches {boot : List SourceDescriptor} {s : Supervisor}
    (h : Reaches Supervisor.step (.new criticalThreshold boot) s) {i : Nat} {t : Task}
    (hTask : s.tasks[i]? = some t) : Lived criticalThreshold t := by
  have hBoth := h.invariant (I := fun s => s.criticalThreshold = criticalThreshold ∧
    ∀ (i : Nat) (t : Task), s.tasks[i]? = some t → Lived criticalThreshold t)
    ⟨rfl, by simp [Supervisor.new]⟩ ?_
  · exact hBoth.2 i t hTask
  · rintro s e s' ⟨rfl, hLived⟩ hStep
    have hAct := Supervisor.act_of_step hStep
    refine ⟨by cases hAct <;> rfl, ?_⟩
    intro i t' hTask'
    obtain ⟨t, ht, hEvolves⟩ | ⟨-, desc, origin, rfl, -⟩ := Supervisor.origin_of_act hAct hTask'
    · exact (hLived i t ht).evolve hEvolves
    · exact ⟨desc, origin, [], _, .nil, rfl⟩

end Life

end HarnessSphere
