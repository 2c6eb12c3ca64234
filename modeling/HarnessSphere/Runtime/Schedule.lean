import HarnessSphere.Runtime.Life

/-! # When a failing source is given up and when it is tried again

The breaker, the classifier and the loop together, over whole histories of collections: a Critical
source is reported dead exactly at its threshold, an Optional one is tried again for ever, after a
backoff that doubles up to a minute.
-/

namespace HarnessSphere.Life

open Machine

variable {desc : SourceDescriptor} {origin : Origin} {criticalThreshold : UInt32}

/-- The breaker and the classifier together, on the whole history. -/
theorem Tracked.reports_iff {l : Life} (h : Tracked desc origin criticalThreshold l)
    (hCritical : desc.criticality = .critical) (hPoint : l.task.point = .collecting)
    (outcome : CollectOutcome) :
    (∃ reason, (l.task.collected outcome).point = .reporting ⟨desc.name, reason⟩ .loop) ↔
      max 1 criticalThreshold.toNat ≤ streak CollectOutcome.failed (l.outcomes ++ [outcome]) := by
  have hTracks := h.breaker (by simp [Task.live, hPoint])
  have hDesc := h.desc
  cases outcome with
  | ok => simp [Task.collected, streak_concat_of_not_failed, CollectOutcome.failed]
  | err _ | panicked =>
    have hIff := (hTracks.failure (a := .panicked) rfl).fatal_iff
    rw [streak_concat_of_failed _ (by rfl)] at hIff
    rw [streak_concat_of_failed _ (by rfl)]
    simp only [Task.collected, Task.point_handleFailure, hDesc, hCritical, hIff]
    split_ifs with hThreshold
    · exact iff_of_true ⟨_, rfl⟩ (by omega)
    · exact iff_of_false (by simp) (by omega)

/-- After each collection of a Critical source the task reports that the source has died if, and only
if, the outcomes end with at least as many failures as the threshold, and with one at least. -/
theorem critical_fatal_at_threshold (desc : SourceDescriptor) (origin : Origin)
    (criticalThreshold : UInt32) (hCritical : desc.criticality = .critical) (events : List LifeEvent)
    (l l' : Life) (hRun : Run step Any (spawn desc origin criticalThreshold) events l) (now : Nat)
    (room : Bool) (outcome : CollectOutcome)
    (hStep : l.step (.own now room (.collected outcome)) = some l') :
    l'.outcomes = l.outcomes ++ [outcome] ∧
    ((∃ reason, ∀ now room e, l'.task.step now room e = if e = .reported ∧ room
        then some ({ l'.task with point := .waiting }, some ⟨desc.name, reason⟩) else none) ↔
      max 1 criticalThreshold.toNat ≤ streak CollectOutcome.failed l'.outcomes) ∧
    (streak CollectOutcome.failed l'.outcomes < max 1 criticalThreshold.toNat →
      l'.task.point = .waiting) := by
  have h := tracked_of_run hRun
  obtain ⟨_, _, _, t', fatal, hAct⟩ := act_of_step hStep
  cases hAct with
  | collected _ hPoint =>
    have hReports := h.reports_iff hCritical hPoint outcome
    have hEither := l.task.point_collected outcome
    rw [h.desc] at hEither
    refine ⟨rfl, ?_, ?_⟩
    · refine Iff.trans ?_ hReports
      constructor
      · rintro ⟨reason, hSends⟩
        obtain hWaiting | hReporting := hEither
        · have hNone := hSends 0 true .reported
          simp [Task.step, hWaiting] at hNone
        · exact hReporting
      · rintro ⟨reason, hReporting⟩
        exact ⟨reason, Task.step_of_reporting hReporting⟩
    · intro hBelow
      obtain hWaiting | hReporting := hEither
      · exact hWaiting
      · exact absurd (hReports.mp hReporting) (Nat.not_le.mpr hBelow)

/-- A host whose probe finds nothing yet and whose first collection fails. -/
def oneFailure : List LifeEvent :=
  [.own 0 true (.probed (.unavailable "no /proc")), .own 0 true .ticked, .own 1 true .woke,
    .own 1 true (.collected .panicked), .own 15 true .ticked, .own 16 true .woke]

theorem second_failure_is_fatal :
    let l := after step (spawn hostDescriptor .boot 2) oneFailure
    let l' := after step l [.own 16 true (.collected (.err (.failed "no /proc")))]
    ∃ reason, ∀ now room e, l'.task.step now room e = if e = .reported ∧ room
      then some ({ l'.task with point := .waiting }, some ⟨"host", reason⟩) else none := by
  intro l l'
  exact (critical_fatal_at_threshold hostDescriptor .boot 2 rfl oneFailure l l' (run_after rfl) 16 true
    (.err (.failed "no /proc")) rfl).2.1.mpr (by decide)

theorem Tracked.point_ticked {l : Life} (h : Tracked desc origin criticalThreshold l)
    (hLive : l.task.live) (now : Nat) :
    (l.task.ticked now).point = if l.delay = 0 then .collecting else .sleeping (now + l.delay) := by
  have hTracks := h.breaker hLive
  have hDelay : (if l.task.breaker.isOpen then l.task.breaker.backoff else 0) = l.delay :=
    hTracks.delay
  have hOpen : l.task.breaker.isOpen ↔ 0 < l.delay := hTracks.isOpen_iff
  unfold Task.ticked
  dsimp only
  split_ifs at hDelay ⊢ with hIsOpen hZero hZero
  · exact absurd hZero (Nat.ne_of_gt (hOpen.mp hIsOpen))
  · rw [hDelay]
  · rfl
  · exact absurd hDelay.symm hZero

/-- A sleep lasts from the tick for as long as the history asks. -/
def Scheduled (l : Life) : Prop :=
  ∀ wake, l.task.point = .sleeping wake → wake = l.tickedAt + l.delay ∧ 0 < l.delay

theorem scheduled_of_act {l l' : Life} {e : LifeEvent} (hAct : Act l e l')
    (hTracked : Tracked desc origin criticalThreshold l) (h : Scheduled l) : Scheduled l' := by
  have hOf {l' : Life} (hIdle : l'.task.idle) : Scheduled l' := by
    intro wake hSleeping
    simp [Task.idle, hSleeping] at hIdle
  cases hAct with
  | stopped stop => exact h
  | aborted hUnfinished => exact hOf rfl
  | own now room e t' fatal hAct =>
    cases hAct with
    | ticked hPoint hDue =>
      intro wake hSleeping
      have hTicked := hTracked.point_ticked (by simp [Task.live, hPoint]) now
      rw [task_record, hTicked] at hSleeping
      split_ifs at hSleeping with hZero
      exact ⟨(Point.sleeping.inj hSleeping).symm, Nat.pos_of_ne_zero hZero⟩
    | woke wake hPoint hDue =>
      intro wake hSleeping
      cases hSleeping
    | emitted signal hPoint =>
      intro wake hSleeping
      rw [task_record, Task.emit, hPoint] at hSleeping
      cases hSleeping
    | collected outcome hPoint => exact hOf (l.task.idle_collected outcome)
    | probed r hPoint => exact hOf (l.task.idle_probed now r)
    | probePanicked hPoint | retirePanicked _ _ hPoint =>
      exact hOf (Task.idle_of_failed l.task.panic_spec.2.1)
    | reported fatal resume hPoint hRoom => exact hOf (by cases resume <;> rfl)
    | stopSeen terminal hPoint | terminal _ _ _ hPoint | retired _ hPoint => exact hOf rfl

theorem scheduled_of_run {ok : Life → LifeEvent → Prop} {events : List LifeEvent} {l : Life}
    (hRun : Run step ok (spawn desc origin criticalThreshold) events l) : Scheduled l := by
  have hBoth := hRun.invariant (I := fun l => Tracked desc origin criticalThreshold l ∧ Scheduled l)
    ⟨tracked_spawn, nofun⟩ fun _ _ _ h _ hStep =>
      ⟨tracked_of_act (act_of_step hStep) h.1, scheduled_of_act (act_of_step hStep) h.1 h.2⟩
  exact hBoth.2

/-- Where a source stands that is contained: before its probe has returned or in its loop. -/
def contained (l : Life) : Bool := match l.task.point with
  | .probing | .waiting | .sleeping _ | .collecting => true
  | _ => false

/-- The probe neither panics nor returns `Fatal`, and `NotApplicable` only for a discovered source. -/
def answers (l : Life) : LifeEvent → Bool
  | .own _ _ (.probed (.fatal _)) => false
  | .own _ _ (.probed .notApplicable) => l.task.origin = .discovered
  | .own _ _ .panicked => l.task.point ≠ .probing
  | _ => true

theorem contained_of_act {l l' : Life} {e : LifeEvent} (hAct : Act l e l')
    (hTracked : Tracked desc origin criticalThreshold l) (hOptional : desc.criticality = .optional)
    (hInterval : 0 < desc.defaultInterval) (hAnswers : l.answers e) (h : l.contained) :
    e.leaves ∨ l'.contained := by
  have hDesc := hTracked.desc
  cases hAct with
  | stopped stop => exact .inr h
  | aborted hUnfinished => exact .inl rfl
  | own now room e t' fatal hAct =>
    cases hAct with
    | probed r hPoint =>
      right
      obtain ⟨hFailed, hZero | ⟨msg, rfl⟩ | ⟨rfl, hBoot⟩⟩ | ⟨-, hTo⟩ | ⟨-, hTo⟩ :=
        l.task.probed_cases now r
      · rw [hDesc] at hZero
        exact absurd hZero (Nat.ne_of_gt hInterval)
      · cases hAnswers
      · simp [answers, hBoot] at hAnswers
      · simp [contained, hTo]
      · simp [contained, hTo]
    | probePanicked hPoint => simp [answers, hPoint] at hAnswers
    | ticked hPoint hDue =>
      right
      simp only [contained, task_record, hTracked.point_ticked (by simp [Task.live, hPoint])]
      split_ifs <;> rfl
    | stopSeen terminal hPoint hStop => exact .inl rfl
    | woke wake hPoint hDue => exact .inr rfl
    | emitted signal hPoint => exact .inr (by simp [contained, Task.emit, hPoint])
    | collected outcome hPoint =>
      right
      have hWaiting := l.task.point_collected_of_optional (hDesc ▸ hOptional) outcome
      simp [contained, hWaiting]
    | reported fatal resume hPoint | terminal _ _ _ hPoint | retired _ hPoint
    | retirePanicked _ _ hPoint => simp [contained, hPoint] at h

theorem contained_of_run {events : List LifeEvent} {l : Life}
    (hOptional : desc.criticality = .optional) (hInterval : 0 < desc.defaultInterval)
    (hRun : Run step (fun l e => l.answers e) (spawn desc origin criticalThreshold) events l) :
    l.contained ∨ ∃ e ∈ events, e.leaves := by
  have hBoth := hRun.history
    (I := fun events l => Tracked desc origin criticalThreshold l ∧
      (l.contained ∨ ∃ e ∈ events, e.leaves)) ⟨tracked_spawn, .inl rfl⟩ ?_
  · exact hBoth.2
  · rintro events l e l' ⟨hTracked, hContained | ⟨e', he', hLeaves⟩⟩ hAnswers hStep
    · have hAct := act_of_step hStep
      refine ⟨tracked_of_act hAct hTracked, ?_⟩
      obtain hLeaves | hContained' :=
        contained_of_act hAct hTracked hOptional hInterval hAnswers hContained
      · exact .inr ⟨e, by simp, hLeaves⟩
      · exact .inl hContained'
    · exact ⟨tracked_of_act (act_of_step hStep) hTracked,
        .inr ⟨e', List.mem_append_left _ he', hLeaves⟩⟩

/-- An Optional source whose probe answers stays in its loop until it is stopped or aborted. Each tick
it consumes is followed by one collection, after the sleep its history of outcomes asks for; and the
backoff is computed without overflow. -/
theorem optional_retries_on_schedule (desc : SourceDescriptor) (origin : Origin)
    (criticalThreshold : UInt32) (hOptional : desc.criticality = .optional)
    (hInterval : 0 < desc.defaultInterval) (events : List LifeEvent) (l : Life)
    (hRun : Run step (fun l e => l.answers e) (spawn desc origin criticalThreshold) events l) :
    (l.contained ∨ ∃ e ∈ events, e.leaves) ∧
    (l.task.point ≠ .ended .aborted → l.ticks = l.begun + (if l.task.point.sleeps then 1 else 0) ∧
      l.begun = l.outcomes.length + if l.task.point = .collecting then 1 else 0) ∧
    (∀ now room l', l.step (.own now room .ticked) = some l' →
      l'.task.point = if l.delay = 0 then .collecting else .sleeping (now + l.delay)) ∧
    (∀ now room e l', l.step (.own now room e) = some l' → l'.begun = l.begun + 1 →
      e = .ticked ∧ l.delay = 0 ∨ e = .woke ∧ 0 < l.delay ∧
        l.task.point = .sleeping (l.tickedAt + l.delay) ∧ l.tickedAt + l.delay ≤ now) ∧
    (l.task.breaker.consecutiveFailures ≠ 0 →
      l.task.breaker.shift.toNat = min l.task.breaker.consecutiveFailures.toNat 16 - 1 ∧
      ((1 : UInt64) <<< l.task.breaker.shift.toUInt64).toNat = 2 ^ l.task.breaker.shift.toNat ∧
      ((1 : UInt64) <<< l.task.breaker.shift.toUInt64).toUInt32.toNat =
        2 ^ l.task.breaker.shift.toNat) := by
  have hTracked := tracked_of_run hRun
  have hCounted : Counted l :=
    hRun.invariant counted_spawn fun _ _ _ h _ hStep => counted_of_act (act_of_step hStep) h
  refine ⟨contained_of_run hOptional hInterval hRun,
    fun hPoint => ⟨hCounted.ticks hPoint, hCounted.begun hPoint⟩, ?_, ?_, ?_⟩
  · intro now room l' hStep
    obtain ⟨_, _, _, t', fatal, hAct⟩ := act_of_step hStep
    cases hAct with
    | ticked hPoint hDue => exact hTracked.point_ticked (by simp [Task.live, hPoint]) now
  · intro now room e l' hStep hBegun
    obtain ⟨_, _, _, t', fatal, hAct⟩ := act_of_step hStep
    have hTo : t'.point = .collecting ∧ l.task.point ≠ .collecting := by
      by_contra hNot
      simp [record, hNot] at hBegun
    cases hAct with
    | ticked hPoint hDue =>
      left
      rw [hTracked.point_ticked (by simp [Task.live, hPoint])] at hTo
      refine ⟨rfl, ?_⟩
      by_contra hZero
      rw [if_neg hZero] at hTo
      cases hTo.1
    | woke wake hPoint hDue =>
      right
      obtain ⟨rfl, hPos⟩ := scheduled_of_run hRun wake hPoint
      exact ⟨rfl, hPos, hPoint, hDue⟩
    | emitted signal hPoint => exact absurd hPoint hTo.2
    | collected outcome hPoint => exact absurd hPoint hTo.2
    | probed r hPoint => exact absurd hTo.1 (Task.of_idle (l.task.idle_probed now r)).2
    | probePanicked hPoint | retirePanicked _ _ hPoint =>
      exact absurd hTo.1 (Task.of_idle (Task.idle_of_failed l.task.panic_spec.2.1)).2
    | reported fatal resume hPoint hRoom => cases resume <;> cases hTo.1
    | stopSeen terminal hPoint | terminal _ _ _ hPoint | retired _ hPoint => cases hTo.1
  · intro hFailures
    have hShift := CircuitBreaker.toNat_shift hFailures
    exact ⟨hShift, CircuitBreaker.toNat_factor (by omega)⟩

/-- Probed before its directories exist, then three failures in a row. -/
def threeFailures : List LifeEvent :=
  [.own 0 true (.probed .notApplicable), .own 0 true .ticked, .own 1 true .woke,
    .own 1 true (.collected .panicked), .own 30 true .ticked, .own 31 true .woke,
    .own 31 true (.collected .panicked), .own 60 true .ticked, .own 62 true .woke,
    .own 62 true (.collected .panicked)]

theorem fourth_attempt_waits_four_seconds :
    let l := after step (spawn sessionDescriptor .discovered 3) threeFailures
    l.contained ∧ l.delay = 4 ∧ ∀ now room l', l.step (.own now room .ticked) = some l' →
      l'.task.point = .sleeping (now + 4) := by
  intro l
  have hSchedule := optional_retries_on_schedule sessionDescriptor .discovered 3 rfl (by decide)
    threeFailures l (run_after_guarded rfl)
  exact ⟨rfl, rfl, hSchedule.2.2.1⟩

end HarnessSphere.Life
