import HarnessSphere.Runtime.Isolation

/-! # The pace of a source

The timer of a task skips the ticks it has missed. So however late a task is polled, however long its
collections take and whatever else goes on in the process, no stretch of time holds more ticks of it than
its interval allows, but for one.
-/

namespace HarnessSphere

open Machine

namespace Task

variable {now : Nat} {room : Bool} {t t' : Task} {e : TaskEvent} {fatal : Option FatalSignal}

theorem now_lt_nextTick (hInterval : 0 < t.desc.defaultInterval) (hDue : t.tick ≤ now) :
    now < t.nextTick now := by
  unfold nextTick
  have hMod := Nat.mod_lt (now - t.tick) hInterval
  generalize t.desc.defaultInterval = interval at *
  split_ifs
  · omega
  · omega

theorem tick_add_le_nextTick (t : Task) (now : Nat) :
    t.tick + t.desc.defaultInterval ≤ t.nextTick now := by
  unfold nextTick
  have hMod := Nat.mod_le (now - t.tick) t.desc.defaultInterval
  generalize t.desc.defaultInterval = interval at *
  split_ifs
  · omega
  · exact le_refl _

theorem interval_of_live_enterLoop (hLive : (t.enterLoop now).live) : 0 < t.desc.defaultInterval := by
  unfold enterLoop at hLive
  split_ifs at hLive with hZero
  · exact absurd hLive (not_live_of_failed t.panic_spec.2.1)
  · exact Nat.pos_of_ne_zero hZero

/-- A task gets past its probe with a positive interval only. -/
theorem interval_of_live_probed {r : ProbeResult} (hLive : (t.probed now r).live) :
    0 < t.desc.defaultInterval := by
  cases r with
  | ready => exact interval_of_live_enterLoop hLive
  | unavailable msg =>
    exact interval_of_live_enterLoop (t := { t with breaker := t.breaker.tripOpen }) hLive
  | fatal msg => cases hLive
  | notApplicable =>
    unfold probed at hLive
    dsimp only at hLive
    split at hLive
    · exact interval_of_live_enterLoop (t := { t with breaker := t.breaker.tripOpen }) hLive
    · cases hLive

/-- Over the steps `es` a task took since `start`: its next tick is ahead of the ticks it has had, and
each tick has let it collect once. -/
structure Paced (start : Nat) (es : List TaskEvent) (now : Nat) (t : Task) : Prop where
  interval : t.live → t.point ≠ .probing → 0 < t.desc.defaultInterval
  ahead : ∀ n, es.count .ticked = n + 1 →
    t.point ≠ .probing ∧ start + n * t.desc.defaultInterval < t.tick
  behind : ∀ n, es.count .ticked = n + 2 →
    0 < t.desc.defaultInterval ∧ start + n * t.desc.defaultInterval < now
  collected : (es.filterMap TaskEvent.outcome).length + (if t.idle then 0 else 1) ≤
    es.count .ticked + 1

variable {start : Nat} {es : List TaskEvent}

theorem paced_spawn (start now : Nat) (desc : SourceDescriptor) (origin : Origin)
    (criticalThreshold : UInt32) : Paced start [] now (spawn desc origin criticalThreshold) where
  interval _ hPoint := absurd rfl hPoint
  ahead _ hCount := by cases hCount
  behind _ hCount := by cases hCount
  collected := Nat.zero_le _

theorem tick_panic (t : Task) : t.panic.tick = t.tick := by
  unfold panic
  split <;> rfl

theorem tick_collected (t : Task) (outcome : CollectOutcome) : (t.collected outcome).tick = t.tick := by
  cases outcome with
  | ok => rfl
  | err _ | panicked =>
    simp only [collected, handleFailure]
    split <;> rfl

/-- A new window opens with no tick in it. -/
theorem Paced.restart (h : Paced start es now t) (start' now' : Nat) : Paced start' [] now' t where
  interval := h.interval
  ahead _ hCount := by cases hCount
  behind _ hCount := by cases hCount
  collected := by
    simp only [List.filterMap_nil, List.length_nil, List.count_nil]
    split_ifs
    · omega
    · omega

theorem Paced.later (h : Paced start es now t) {now' : Nat} (hLe : now ≤ now') :
    Paced start es now' t :=
  ⟨h.interval, h.ahead,
    fun n hCount => (h.behind n hCount).imp_right fun hBehind => hBehind.trans_le hLe, h.collected⟩

theorem count_snoc (hOther : e ≠ .ticked) : (es ++ [e]).count .ticked = es.count .ticked := by
  rw [List.count_append, List.count_singleton, if_neg (by simpa using hOther), Nat.add_zero]

/-- A step that leaves the timer alone and ends no collection. -/
theorem Paced.quiet (h : Paced start es now t) (hOther : e ≠ .ticked) (hOutcome : e.outcome = none)
    (hDesc : t'.desc = t.desc) (hTick : t'.tick = t.tick) (hPoint : t'.point ≠ .probing)
    (hInterval : t'.live → t.live ∧ t.point ≠ .probing) (hIdle : t'.idle = false → t.idle = false) :
    Paced start (es ++ [e]) now t' where
  interval hLive _ := by
    obtain ⟨hFrom, hPast⟩ := hInterval hLive
    rw [hDesc]
    exact h.interval hFrom hPast
  ahead n hCount := by
    rw [count_snoc hOther] at hCount
    rw [hDesc, hTick]
    exact ⟨hPoint, (h.ahead n hCount).2⟩
  behind n hCount := by
    rw [count_snoc hOther] at hCount
    rw [hDesc]
    exact h.behind n hCount
  collected := by
    rw [count_snoc hOther, List.filterMap_append]
    simp only [List.filterMap_cons, hOutcome, List.filterMap_nil, List.append_nil]
    refine le_trans ?_ h.collected
    cases hBusy : t'.idle with
    | true => simp
    | false => simp [hIdle hBusy]

theorem Paced.ticked (h : Paced start es now t) (hStart : start ≤ now) (hPoint : t.point = .waiting)
    (hDue : t.tick ≤ now) : Paced start (es ++ [.ticked]) now (t.ticked now) := by
  have hInterval := h.interval (by simp [live, hPoint]) (by simp [hPoint])
  have hCount : (es ++ [TaskEvent.ticked]).count .ticked = es.count .ticked + 1 := by
    rw [List.count_append, List.count_singleton_self]
  have hPast : (t.ticked now).point ≠ .probing := by
    unfold Task.ticked
    cases t.breaker.isOpen <;> simp
  have hNow := now_lt_nextTick hInterval hDue
  have hNext := t.tick_add_le_nextTick now
  refine ⟨fun _ _ => hInterval, ?_, ?_, ?_⟩
  · intro n hn
    refine ⟨hPast, ?_⟩
    show start + n * t.desc.defaultInterval < t.nextTick now
    cases n with
    | zero => omega
    | succ n =>
      obtain ⟨-, hAhead⟩ := h.ahead n (by omega)
      rw [Nat.succ_mul]
      generalize t.desc.defaultInterval = interval at *
      omega
  · intro n hn
    obtain ⟨-, hAhead⟩ := h.ahead n (by omega)
    exact ⟨hInterval, hAhead.trans_le hDue⟩
  · rw [hCount, List.filterMap_append]
    have hCollected := h.collected
    simp only [idle, hPoint, if_true] at hCollected
    simp only [List.filterMap_cons, TaskEvent.outcome, List.filterMap_nil, List.append_nil]
    split_ifs
    · omega
    · omega

theorem Paced.probed (h : Paced start es now t) (hPoint : t.point = .probing) (r : ProbeResult) :
    Paced start (es ++ [.probed r]) now (t.probed now r) := by
  have hNone : ∀ n, es.count .ticked ≠ n + 1 := fun n hCount => (h.ahead n hCount).1 hPoint
  have hCollected := h.collected
  simp only [idle, hPoint, if_true] at hCollected
  refine ⟨?_, ?_, ?_, ?_⟩
  · intro hLive _
    rw [(t.probed_spec now r).1.desc]
    exact interval_of_live_probed hLive
  · intro n hCount
    rw [count_snoc (by simp)] at hCount
    exact absurd hCount (hNone n)
  · intro n hCount
    rw [count_snoc (by simp)] at hCount
    exact absurd hCount (hNone (n + 1))
  · rw [count_snoc (by simp), List.filterMap_append, t.idle_probed now r]
    simpa [List.filterMap_cons, TaskEvent.outcome] using hCollected

theorem Paced.ended (h : Paced start es now t) (outcome : CollectOutcome)
    (hPoint : t.point = .collecting) :
    Paced start (es ++ [.collected outcome]) now (t.collected outcome) := by
  obtain ⟨hSame, -, -⟩ := t.collected_spec outcome
  have hInterval := h.interval (by simp [live, hPoint]) (by simp [hPoint])
  have hCollected := h.collected
  simp only [idle, hPoint, Bool.false_eq_true, if_false] at hCollected
  refine ⟨fun _ _ => hSame.desc ▸ hInterval, ?_, ?_, ?_⟩
  · intro n hCount
    rw [count_snoc (by simp)] at hCount
    rw [hSame.desc, tick_collected]
    refine ⟨?_, (h.ahead n hCount).2⟩
    obtain hWaiting | ⟨reason, hReporting⟩ := t.point_collected outcome
    · simp [hWaiting]
    · simp [hReporting]
  · intro n hCount
    rw [count_snoc (by simp)] at hCount
    rw [hSame.desc]
    exact h.behind n hCount
  · rw [count_snoc (by simp), List.filterMap_append, t.idle_collected outcome]
    simpa [List.filterMap_cons, TaskEvent.outcome] using hCollected

theorem paced_of_act (hAct : Act now room t e t' fatal) (h : Paced start es now t)
    (hStart : start ≤ now) : Paced start (es ++ [e]) now t' := by
  cases hAct with
  | probed r hPoint => exact h.probed hPoint r
  | ticked hPoint hDue => exact h.ticked hStart hPoint hDue
  | collected outcome hPoint => exact h.ended outcome hPoint
  | probePanicked hPoint | retirePanicked _ _ hPoint =>
    obtain ⟨hSame, hFailed, -⟩ := t.panic_spec
    exact h.quiet (by simp) rfl hSame.desc t.tick_panic (not_probing_of_failed hFailed)
      (fun hLive => absurd hLive (not_live_of_failed hFailed))
      fun hBusy => by simp [idle_of_failed hFailed] at hBusy
  | woke wake hPoint hDue =>
    exact h.quiet (by simp) rfl rfl rfl (by simp) (fun _ => by simp [live, hPoint])
      fun _ => by simp [idle, hPoint]
  | emitted signal hPoint =>
    exact h.quiet (by simp) rfl rfl rfl (by simp [emit, hPoint]) (fun _ => by simp [live, hPoint])
      fun _ => by simp [idle, hPoint]
  | reported fatal resume hPoint hRoom =>
    cases resume with
    | loop =>
      exact h.quiet (by simp) rfl rfl rfl (by simp [Resume.point]) (fun _ => by simp [live, hPoint])
        fun hBusy => by cases hBusy
    | fatalProbe | panicked =>
      exact h.quiet (by simp) rfl rfl rfl (by simp [Resume.point]) (fun hLive => by cases hLive)
        fun hBusy => by cases hBusy
  | stopSeen _ hPoint _ | retired _ hPoint | terminal _ _ _ hPoint =>
    exact h.quiet (by simp) rfl rfl rfl (by simp [emit]) (fun hLive => by simp [live, emit] at hLive)
      fun hBusy => by simp [idle, emit] at hBusy

/-- A task that is given up takes no further step. -/
theorem Paced.aborted (h : Paced start es now t) :
    Paced start es now { t with point := .ended .aborted } where
  interval hLive := by cases hLive
  ahead n hCount := ⟨by simp, (h.ahead n hCount).2⟩
  behind := h.behind
  collected := le_trans (Nat.add_le_add_left (Nat.zero_le _) _) h.collected

/-- The ticks of a window, in the intervals it has room for. -/
theorem Paced.count_le (h : Paced start es now t) :
    es.count .ticked ≤ 1 + (now - start + t.desc.defaultInterval - 1) / t.desc.defaultInterval := by
  obtain hFew | ⟨n, hCount⟩ : es.count .ticked ≤ 1 ∨ ∃ n, es.count .ticked = n + 2 := by
    cases hCount : es.count .ticked with
    | zero => exact .inl (Nat.zero_le 1)
    | succ n => cases n with
      | zero => exact .inl le_rfl
      | succ n => exact .inr ⟨n, rfl⟩
  · exact hFew.trans (Nat.le_add_right _ _)
  · obtain ⟨hInterval, hBehind⟩ := h.behind n hCount
    have hRoom : n + 1 ≤ (now - start + t.desc.defaultInterval - 1) / t.desc.defaultInterval := by
      rw [Nat.le_div_iff_mul_le hInterval, Nat.succ_mul]
      generalize t.desc.defaultInterval = interval at *
      omega
    omega

end Task

namespace Process

variable {criticalThreshold : UInt32} {p p' q : Process} {e : ProcessEvent} {i : Nat} {start : Nat}
  {events : List ProcessEvent}

theorem now_le_of_act (hAct : Act p e p') : p.supervisor.now ≤ p'.supervisor.now := by
  cases hAct with
  | spawnBoot s hRunning hAct | command cmd s hRunning hAct | joined s hRunning hAct =>
    cases hAct <;> exact le_rfl
  | timedOut r hRunning hRemoval hUnfinished | aborts name result j hStage hName =>
    unfold abort
    split_ifs <;> exact le_rfl
  | advance => exact Nat.le_succ _
  | _ => exact le_rfl

/-- Every task has kept its pace since `start`. -/
structure KeepsPace (start : Nat) (events : List ProcessEvent) (p : Process) : Prop where
  since : start ≤ p.supervisor.now
  fresh : ∀ i, p.supervisor.tasks.length ≤ i → events.filterMap (own i) = []
  paced : ∀ (i : Nat) (t : Task), p.supervisor.tasks[i]? = some t →
    t.Paced start (events.filterMap (own i)) p.supervisor.now

theorem KeepsPace.paced_of_act (h : KeepsPace start events p) (hAct : Act p e p') {t' : Task}
    (hTask' : p'.supervisor.tasks[i]? = some t') :
    t'.Paced start ((events ++ [e]).filterMap (own i)) p'.supervisor.now := by
  have hNow := now_le_of_act hAct
  rw [List.filterMap_append]
  cases hOwn : own i e with
  | some e' =>
    obtain ⟨t, u, fatal, hTask, hu, hStep⟩ := moved_of_own hAct hOwn
    obtain rfl := Option.some.inj (hu.symm.trans hTask')
    have hNext := (Task.paced_of_act (Task.act_of_step hStep) (h.paced i t hTask) h.since).later hNow
    simpa [hOwn] using hNext
  | none =>
    rw [show [e].filterMap (own i) = [] by simp [hOwn], List.append_nil]
    obtain ⟨t, hTask, hEffect⟩ | ⟨rfl, desc, origin, rfl, -⟩ := effect_of_act hAct hTask'
    · have hPaced := (h.paced i t hTask).later hNow
      cases hEffect with
      | same => exact hPaced
      | removed _ _ _ | dropped _ _ =>
        exact ⟨hPaced.interval, hPaced.ahead, hPaced.behind, hPaced.collected⟩
      | aborted hUnfinished hWhy => exact hPaced.aborted
      | moved e' _ fatal hEvent hTaskAct hSent => simp [own, hEvent] at hOwn
    · rw [h.fresh _ le_rfl]
      exact Task.paced_spawn _ _ _ _ _

theorem keepsPace_of_act (hAct : Act p e p') (h : KeepsPace start events p) :
    KeepsPace start (events ++ [e]) p' where
  since := h.since.trans (now_le_of_act hAct)
  fresh i hLength := by
    have hOld := (length_le_of_act hAct).trans hLength
    cases hOwn : own i e with
    | none => simp [h.fresh i hOld, hOwn]
    | some e' =>
      obtain ⟨t, -, -, hTask, -⟩ := moved_of_own hAct hOwn
      have hLt := (List.getElem?_eq_some_iff.mp hTask).1
      omega
  paced i t' hTask' := h.paced_of_act hAct hTask'

theorem keepsPace_new (criticalThreshold : UInt32) (boot : List SourceDescriptor) :
    KeepsPace 0 [] (new criticalThreshold boot) where
  since := Nat.zero_le _
  fresh _ _ := rfl
  paced i t hTask := by simp [new, Supervisor.new] at hTask

/-- The rest of a run is a window of its own. -/
theorem KeepsPace.restart (h : KeepsPace start events p) :
    KeepsPace p.supervisor.now [] p where
  since := le_rfl
  fresh _ _ := rfl
  paced i t hTask := (h.paced i t hTask).restart _ _

theorem keepsPace_of_run (hRun : Run step Any p events q) {before : List ProcessEvent}
    (h : KeepsPace start before p) : KeepsPace start (before ++ events) q := by
  refine hRun.history (I := fun events q => KeepsPace start (before ++ events) q) (by simpa) ?_
  intro events a e b hPace _ hStep
  rw [← List.append_assoc]
  exact keepsPace_of_act (act_of_step hStep) hPace

/-- In any stretch of any run, whatever the other sources, the supervisor and the shutdown do, a task has
no more ticks than its interval has room for, and one; and it ends no more collections than it has ticks,
and one. -/
theorem a_source_keeps_its_pace (criticalThreshold : UInt32) (boot : List SourceDescriptor)
    (before events : List ProcessEvent) (p q : Process)
    (hBefore : Run step Any (new criticalThreshold boot) before p) (hRun : Run step Any p events q)
    (i : Nat) (t : Task) (hTask : q.supervisor.tasks[i]? = some t) :
    let ticks := (events.filterMap (own i)).count .ticked
    let interval := t.desc.defaultInterval
    ticks ≤ 1 + (q.supervisor.now - p.supervisor.now + interval - 1) / interval ∧
      ((events.filterMap (own i)).filterMap TaskEvent.outcome).length ≤ ticks + 1 := by
  have hStart : KeepsPace p.supervisor.now [] p :=
    (keepsPace_of_run hBefore (keepsPace_new criticalThreshold boot)).restart
  have hPaced := (keepsPace_of_run hRun hStart).paced i t hTask
  rw [List.nil_append] at hPaced
  exact ⟨hPaced.count_le, le_trans (Nat.le_add_right _ _) hPaced.collected⟩

section Sample

/-- A quick host is polled late: the tick of second 2 is taken at 3. -/
def polledLate : List ProcessEvent :=
  [.spawnBoot, .polled 0, .task 0 (.probed .ready), .task 0 .ticked, .task 0 (.collected .ok), .advance,
    .advance, .advance]

/-- It takes the tick it has missed and, one second later, the next one. -/
def catchesUp : List ProcessEvent :=
  [.task 0 .ticked, .task 0 (.collected .ok), .advance, .task 0 .ticked]

theorem a_late_host_ticks_twice :
    (catchesUp.filterMap (own 0)).count .ticked = 2 ∧
      (catchesUp.filterMap (own 0)).count .ticked ≤ 1 + (4 - 3 + 2 - 1) / 2 := by
  let late := after step (new 1 [{ hostDescriptor with defaultInterval := 2 }]) polledLate
  have hPace := a_source_keeps_its_pace 1 [{ hostDescriptor with defaultInterval := 2 }] polledLate
    catchesUp late (after step late catchesUp) (run_after rfl) (run_after rfl) 0 _ rfl
  exact ⟨rfl, hPace.1⟩

end Sample

end Process

end HarnessSphere
