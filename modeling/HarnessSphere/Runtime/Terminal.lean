import HarnessSphere.Runtime.Deaths

/-! # When a source emits its terminal signals

`retire()` runs from the stop branch of the loop, and the stop branch is taken when a stop was sent,
but just as well when the sender of the stop was dropped. The shutdown drops the sender of each task it
aborts; a task it finds in the middle of a poll may still reach its `select!` before it yields.
-/

namespace HarnessSphere

open Machine

namespace Task

variable {now : Nat} {room : Bool} {t t' : Task} {e : TaskEvent} {fatal : Option FatalSignal}

theorem not_live_of_act (hAct : Act now room t e t' fatal) (h : ¬ t.live) : ¬ t'.live := by
  cases (spec_of_act hAct).2 with
  | loop hFrom hTo hSent => exact absurd hFrom h
  | speak signal hPoint hTo => simp [live, hPoint] at h
  | retire terminal hPoint hStop hTo => simp [live, hPoint] at h
  | terminal terminal signal rest hPoint hTo => simp [hTo, live, emit]
  | retired terminal hPoint hTo => simp [hTo, live]
  | fail hFrom hTo hSent => exact not_live_of_failed hTo

theorem mem_sent_of_act (hAct : Act now room t e t' fatal) {x : Phase × Signal} (hx : x ∈ t'.sent) :
    x ∈ t.sent ∨ x.1 = .collect ∨ ∃ terminal rest, t.point = .retiring terminal rest := by
  cases (spec_of_act hAct).2 with
  | loop hFrom hTo hSent | fail hFrom hTo hSent => exact .inl (hSent ▸ hx)
  | speak signal hPoint hTo =>
    subst hTo
    obtain hOld | hNew := List.mem_append.mp hx
    · exact .inl hOld
    · obtain rfl := List.mem_singleton.mp hNew
      exact .inr (.inl rfl)
  | retire terminal hPoint hStop hTo =>
    subst hTo
    exact .inl hx
  | terminal terminal signal rest hPoint hTo => exact .inr (.inr ⟨terminal, _, hPoint⟩)
  | retired terminal hPoint hTo =>
    subst hTo
    exact .inl hx

end Task

namespace Process

variable {p p' : Process} {e : ProcessEvent} {criticalThreshold : UInt32}
  {boot : List SourceDescriptor} {events : List ProcessEvent}

/-- A task whose stop sender the shutdown has dropped does not get to its `select!` any more. -/
def settled (p : Process) : ProcessEvent → Bool
  | .task i _ => (p.supervisor.tasks[i]?).all fun t => t.stop ≠ .dropped ∨ t.point ≠ .waiting
  | _ => true

/-- Task `i` has seen its stop. -/
def StopSeen (events : List ProcessEvent) (i : Nat) : Prop :=
  ∃ terminal, .task i (.stopSeen terminal) ∈ events

theorem StopSeen.append {i : Nat} (h : StopSeen events i) (more : List ProcessEvent) :
    StopSeen (events ++ more) i :=
  h.imp fun _ hMem => List.mem_append_left _ hMem

/-- A task that has seen its stop never comes back to its loop. -/
theorem not_live_of_stopSeen {ok : Process → ProcessEvent → Prop}
    (hRun : Run step ok (new criticalThreshold boot) events p) {i : Nat} (h : StopSeen events i) :
    ∃ t, p.supervisor.tasks[i]? = some t ∧ ¬ t.live := by
  have hInvariant := hRun.history (I := fun events p => ∀ i, StopSeen events i →
    ∃ t, p.supervisor.tasks[i]? = some t ∧ ¬ t.live) nofun ?_
  · exact hInvariant i h
  · intro events p e p' hOld _ hStep i hSeen
    have hAct := act_of_step hStep
    obtain ⟨terminal, hMem⟩ := hSeen
    obtain hBefore | hNow := List.mem_append.mp hMem
    · obtain ⟨t, hTask, hDone⟩ := hOld i ⟨terminal, hBefore⟩
      obtain ⟨t', hTask', hEffect⟩ := effect_of_task hAct hTask
      refine ⟨t', hTask', ?_⟩
      cases hEffect with
      | aborted hUnfinished hWhy => simp [Task.live]
      | moved e' _ fatal hEvent hTaskAct hSent => exact Task.not_live_of_act hTaskAct hDone
      | _ => exact hDone
    · obtain rfl := List.mem_singleton.mp hNow
      cases hAct with
      | task _ _ t t' fatal hBusy hTask hTaskStep =>
        have hLt := (List.getElem?_eq_some_iff.mp hTask).1
        refine ⟨t', List.getElem?_set_self hLt, ?_⟩
        cases Task.act_of_step hTaskStep with
        | stopSeen _ hPoint hStop => simp [Task.live]

/-- Terminal signals come from a task that has seen its stop. -/
theorem stopSeen_of_retire {ok : Process → ProcessEvent → Prop}
    (hRun : Run step ok (new criticalThreshold boot) events p) {i : Nat} {t : Task}
    (hTask : p.supervisor.tasks[i]? = some t) {signal : Signal} (hSent : (.retire, signal) ∈ t.sent) :
    StopSeen events i := by
  have hInvariant := hRun.history (I := fun events p => ∀ i t, p.supervisor.tasks[i]? = some t →
    (∃ terminal rest, t.point = .retiring terminal rest) ∨ (∃ signal, (.retire, signal) ∈ t.sent) →
    StopSeen events i) (fun i t hTask => by simp [new, Supervisor.new] at hTask) ?_
  · exact hInvariant i t hTask (.inr ⟨signal, hSent⟩)
  · intro events p e p' hOld _ hStep
    apply tasks_of_act (Q := fun _ i t => (∃ terminal rest, t.point = .retiring terminal rest) ∨
      (∃ signal, (.retire, signal) ∈ t.sent) → StopSeen (events ++ [e]) i) (act_of_step hStep)
    · intro i t hTask hRetire
      exact (hOld i t hTask hRetire).append [e]
    · intro i t t' hTask hTask' hEffect hBefore hRetire
      cases hEffect with
      | aborted hUnfinished hWhy =>
        obtain ⟨_, _, hPoint⟩ | hRetired := hRetire
        · cases hPoint
        · exact hBefore (.inr hRetired)
      | moved e' _ fatal hEvent hTaskAct hSent =>
        obtain ⟨terminal, rest, hPoint⟩ | ⟨signal, hMem⟩ := hRetire
        · obtain ⟨rfl, -⟩ | ⟨rest', hRetiring⟩ := Task.retiring_of_act hTaskAct hPoint
          · exact ⟨terminal, by simp [hEvent]⟩
          · exact hBefore (.inl ⟨terminal, rest', hRetiring⟩)
        · obtain hOldSignal | hCollect | hRetiring := Task.mem_sent_of_act hTaskAct hMem
          · exact hBefore (.inr ⟨signal, hOldSignal⟩)
          · cases hCollect
          · exact hBefore (.inl hRetiring)
      | _ => exact hBefore hRetire
    · intro desc origin _ hRetire
      simp [Task.spawn] at hRetire

/-- A `Remove` with the name of task `i` was processed while the registry held its handle. -/
def Removed (criticalThreshold : UInt32) (boot : List SourceDescriptor)
    (ok : Process → ProcessEvent → Prop) (events : List ProcessEvent) (i : Nat) : Prop :=
  ∃ earlier later q t, events = earlier ++ .command (.remove t.desc.name) :: later ∧
    Run step ok (new criticalThreshold boot) earlier q ∧ q.supervisor.tasks[i]? = some t ∧
    q.supervisor.registry.lookup t.desc.name = some i

theorem Removed.append {ok : Process → ProcessEvent → Prop} {i : Nat}
    (h : Removed criticalThreshold boot ok events i) (more : List ProcessEvent) :
    Removed criticalThreshold boot ok (events ++ more) i := by
  obtain ⟨earlier, later, q, t, rfl, hRest⟩ := h
  exact ⟨earlier, later ++ more, q, t, by simp, hRest⟩

theorem removed_of_sent {ok : Process → ProcessEvent → Prop}
    (hRun : Run step ok (new criticalThreshold boot) events p) {i : Nat} {t : Task}
    (hTask : p.supervisor.tasks[i]? = some t) (hStop : t.stop = .sent) :
    Removed criticalThreshold boot ok events i := by
  have hInvariant := hRun.history (I := fun events p =>
    Run step ok (new criticalThreshold boot) events p ∧ Handled p ∧
    ∀ i t, p.supervisor.tasks[i]? = some t → t.stop = .sent →
      Removed criticalThreshold boot ok events i)
    ⟨.nil, handled_new _ _, fun i t hTask => by simp [new, Supervisor.new] at hTask⟩ ?_
  · exact hInvariant.2.2 i t hTask hStop
  · rintro events p e p' ⟨hBefore, hHandled, hOld⟩ hOk hStep
    have hAct := act_of_step hStep
    refine ⟨hBefore.snoc hOk hStep, handled_of_act hAct hHandled, ?_⟩
    apply tasks_of_act (Q := fun _ i t => t.stop = .sent →
      Removed criticalThreshold boot ok (events ++ [e]) i) hAct
    · intro i t hTask hSent
      exact (hOld i t hTask hSent).append [e]
    · intro i t t' hTask hTask' hEffect hKept hSent
      cases hEffect with
      | removed name hEvent hName =>
        obtain ⟨u, hu, rfl⟩ := hHandled name i hName
        exact ⟨events, [], p, u, by rw [hEvent], hBefore, hu, hName⟩
      | dropped result hStage => cases hSent
      | moved e' _ fatal hEvent hTaskAct _ =>
        exact hKept ((Task.spec_of_act hTaskAct).1.stop.symm.trans hSent)
      | _ => exact hKept hSent
    · intro desc origin _ hSent
      cases hSent

/-- The stop is seen at the `select!`, by a task that has not seen it before. -/
theorem waiting_of_stopSeen {ok : Process → ProcessEvent → Prop} {before after : List ProcessEvent}
    {i : Nat} {terminal : List Signal} (hRun : Run step ok (new criticalThreshold boot)
      (before ++ .task i (.stopSeen terminal) :: after) p) :
    ¬ StopSeen before i ∧ ∃ q t, Run step ok (new criticalThreshold boot) before q ∧
      ok q (.task i (.stopSeen terminal)) ∧ q.supervisor.tasks[i]? = some t ∧ t.point = .waiting ∧
      t.stop ≠ .pending := by
  obtain ⟨q, hBefore, hRest⟩ := run_append_iff.mp hRun
  obtain ⟨q', hOk, hStep, -⟩ := run_cons_iff.mp hRest
  cases act_of_step hStep with
  | task _ _ t t' fatal hBusy hTask hTaskStep =>
    cases Task.act_of_step hTaskStep with
    | stopSeen _ hPoint hStop =>
      refine ⟨?_, q, t, hBefore, hOk, hTask, hPoint, hStop⟩
      intro hSeen
      obtain ⟨u, hu, hDone⟩ := not_live_of_stopSeen hBefore hSeen
      obtain rfl := Option.some.inj (hTask.symm.trans hu)
      simp [Task.live, hPoint] at hDone

/-- If no task whose stop sender the shutdown has dropped gets to its `select!`, then terminal signals
come from tasks that ran `retire()`, and a task runs it at most once, after a `Remove` with its name. -/
theorem retire_only_after_remove (criticalThreshold : UInt32) (boot : List SourceDescriptor)
    (events : List ProcessEvent) (p : Process)
    (hRun : Run step (fun p e => p.settled e) (new criticalThreshold boot) events p) (i : Nat) :
    (∀ t signal, p.supervisor.tasks[i]? = some t → (.retire, signal) ∈ t.sent → StopSeen events i) ∧
    ∀ before terminal after, events = before ++ .task i (.stopSeen terminal) :: after →
      Removed criticalThreshold boot (fun p e => p.settled e) before i ∧
      ¬ StopSeen before i ∧ ¬ StopSeen after i := by
  refine ⟨fun t signal hTask hSent => stopSeen_of_retire hRun hTask hSent, ?_⟩
  rintro before terminal after rfl
  obtain ⟨hFirst, q, t, hBefore, hSettled, hTask, hPoint, hPending⟩ := waiting_of_stopSeen hRun
  have hStop : t.stop = .sent := by
    have hDropped : t.stop ≠ .dropped := by simpa [settled, hTask, hPoint] using hSettled
    cases hStop : t.stop with
    | pending => exact absurd hStop hPending
    | sent => rfl
    | dropped => exact absurd hStop hDropped
  refine ⟨removed_of_sent hBefore hTask hStop, hFirst, ?_⟩
  rintro ⟨terminal', hMem⟩
  obtain ⟨between, later, rfl⟩ := List.append_of_mem hMem
  rw [← List.cons_append, ← List.append_assoc] at hRun
  exact (waiting_of_stopSeen hRun).1 ⟨terminal, by simp⟩

/-- A session source is added and collects once. -/
def collectsOnce : List ProcessEvent :=
  [.command (.add sessionDescriptor), .polled 0, .task 0 (.probed .ready), .task 0 .ticked,
    .task 0 (.collected .ok), .yielded 0]

/-- It is removed, and the process shuts down. -/
def removedInTime : List ProcessEvent :=
  collectsOnce ++ [.command (.remove sessionDescriptor.name), .polled 0,
    .task 0 (.stopSeen [noSessions]), .task 0 (.emitted noSessions), .task 0 .retired, .yielded 0,
    .joined, .ctrlC, .drained, .returned]

theorem a_removed_session_retires_once :
    Removed 3 [] (fun p e => p.settled e) (removedInTime.take 8) 0 ∧
      ¬ StopSeen (removedInTime.take 8) 0 ∧ ¬ StopSeen (removedInTime.drop 9) 0 :=
  (retire_only_after_remove 3 [] removedInTime _ (run_after_guarded rfl) 0).2 (removedInTime.take 8)
    [noSessions] (removedInTime.drop 9) rfl

/-- The shutdown finds a discovered source in the middle of a collection, which it then completes. -/
def caughtCollecting : List ProcessEvent :=
  [.command (.add sessionDescriptor), .polled 0, .task 0 (.probed .ready), .task 0 .ticked, .ctrlC,
    .aborts sessionDescriptor.name, .drops, .task 0 (.collected .ok), .task 0 (.stopSeen [noSessions]),
    .task 0 (.emitted noSessions)]

theorem a_shutdown_retires_a_busy_source :
    ∃ p t, Run step Any (new 3 []) caughtCollecting p ∧
      StopSeen caughtCollecting 0 ∧ (∀ name, .command (.remove name) ∉ caughtCollecting) ∧
      p.supervisor.tasks[0]? = some t ∧ (.retire, stampLayer .harness noSessions) ∈ t.sent :=
  ⟨_, _, run_of_exec rfl, ⟨[noSessions], by decide⟩, by simp [caughtCollecting], rfl, by decide⟩

/-- The shutdown finds no task in the middle of a poll. -/
def quiet (p : Process) : ProcessEvent → Bool
  | .aborts name => (p.supervisor.registry.lookup name).all (· ∉ p.busy)
  | _ => true

theorem Effect.finished {i : Nat} {t t' : Task} (h : Effect p e p' i t t') (hFinished : t.finished) :
    t'.finished := by
  cases h with
  | aborted hUnfinished hWhy => rfl
  | moved e' _ fatal hEvent hTaskAct hSent =>
    rw [Task.unfinished_of_act hTaskAct] at hFinished
    cases hFinished
  | _ => exact hFinished

def AbortsDone (p : Process) : Prop :=
  ∀ i ∈ p.shutDown, ∃ t, p.supervisor.tasks[i]? = some t ∧ t.finished

theorem abortsDone_of_act (hAct : Act p e p') (hHandled : Handled p) (hQuiet : p.quiet e)
    (h : AbortsDone p) : AbortsDone p' := by
  have hKeep (i : Nat) (hOld : i ∈ p.shutDown) :
      ∃ t, p'.supervisor.tasks[i]? = some t ∧ t.finished := by
    obtain ⟨t, hTask, hFinished⟩ := h i hOld
    obtain ⟨t', hTask', hEffect⟩ := effect_of_task hAct hTask
    exact ⟨t', hTask', hEffect.finished hFinished⟩
  intro i hShutDown
  cases hAct with
  | aborts name result j hStage hName =>
    rw [shutDown_abort] at hShutDown
    obtain rfl | hOld := List.mem_cons.mp hShutDown
    · obtain ⟨t, hTask, -⟩ := hHandled name i hName
      have hIdle : i ∉ p.busy := by simpa [quiet, hName] using hQuiet
      refine ⟨t.abort, ?_, ?_⟩
      · simp [abort, hIdle, Supervisor.abort, hTask]
      · unfold Task.abort
        split_ifs with hFinished
        · exact hFinished
        · rfl
    · exact hKeep i hOld
  | timedOut r hRunning hRemoval hUnfinished =>
    rw [shutDown_abort] at hShutDown
    exact hKeep i hShutDown
  | _ => exact hKeep i hShutDown

/-- Such a shutdown settles: the tasks whose stop senders it drops have ended. -/
theorem settled_of_quiet
    (hRun : Run step (fun p e => p.quiet e) (new criticalThreshold boot) events p) :
    Run step (fun p e => p.settled e) (new criticalThreshold boot) events p := by
  have hInvariant := hRun.history (I := fun events p =>
    Run step (fun p e => p.settled e) (new criticalThreshold boot) events p ∧ Handled p ∧
      Accounted p ∧ AbortsDone p)
    ⟨.nil, handled_new _ _, accounted_new _ _, by simp [AbortsDone, new]⟩ ?_
  · exact hInvariant.1
  · rintro events p e p' ⟨hBefore, hHandled, hAccounted, hDone⟩ hQuiet hStep
    have hAct := act_of_step hStep
    refine ⟨hBefore.snoc ?_ hStep, handled_of_act hAct hHandled,
      accounted_of_act hAct hHandled hAccounted, abortsDone_of_act hAct hHandled hQuiet hDone⟩
    cases hAct with
    | task i e t t' fatal hBusy hTask hTaskStep =>
      have hUnfinished := Task.unfinished_of_act (Task.act_of_step hTaskStep)
      have hDropped : t.stop ≠ .dropped := by
        intro hStop
        obtain ⟨u, hu, hSent⟩ | hShutDown := (hAccounted.tasks i t hTask).stop (by simp [hStop])
        · obtain rfl := Option.some.inj (hTask.symm.trans hu)
          rw [hStop] at hSent
          cases hSent
        · obtain ⟨u, hu, hFinished⟩ := hDone i hShutDown
          obtain rfl := Option.some.inj (hTask.symm.trans hu)
          rw [hUnfinished] at hFinished
          cases hFinished
      simp [settled, hTask, hDropped]
    | _ => rfl

end Process

end HarnessSphere
