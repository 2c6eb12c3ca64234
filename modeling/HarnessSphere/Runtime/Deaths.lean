import HarnessSphere.Runtime.Shutdown

/-! # Who is reported dead, and who dies without a report

Fatal signals are sent from three places: after a fatal probe, after a collection that failed once too
often, and after a panic of the whole task. The first of them does not ask whether the source is
Critical.
-/

namespace HarnessSphere

open Machine

namespace Task

variable {now : Nat} {room : Bool} {t t' : Task} {e : TaskEvent} {fatal : Option FatalSignal}

theorem point_panic (t : Task) : t.panic.point = .ended .panicked ∧ t.desc.criticality = .optional ∨
    t.panic.point = .reporting ⟨t.desc.name, "supervisor task panicked"⟩ .panicked ∧
      t.desc.criticality = .critical := by
  unfold panic
  cases t.desc.criticality with
  | critical => exact .inr ⟨rfl, rfl⟩
  | optional => exact .inl ⟨rfl, rfl⟩

theorem point_ticked (t : Task) (now : Nat) :
    (t.ticked now).point = .collecting ∨ ∃ wake, (t.ticked now).point = .sleeping wake := by
  unfold ticked
  split_ifs
  · exact .inr ⟨_, rfl⟩
  · exact .inl rfl

theorem point_enterLoop (t : Task) (now : Nat) :
    (t.enterLoop now).point = .waiting ∨ t.enterLoop now = t.panic := by
  unfold enterLoop
  split_ifs
  · exact .inr rfl
  · exact .inl rfl

theorem point_probed (t : Task) (now : Nat) (r : ProbeResult) :
    (t.probed now r).point = .waiting ∨ (t.probed now r).point = t.panic.point ∨
    (r = .notApplicable ∧ t.origin = .boot ∧ (t.probed now r).point = .ended .notApplicable) ∨
    ∃ msg, r = .fatal msg ∧
      (t.probed now r).point = .reporting ⟨t.desc.name, "probe fatal: " ++ msg⟩ .fatalProbe := by
  have hTripped : ({ t with breaker := t.breaker.tripOpen } : Task).panic.point = t.panic.point := by
    unfold panic
    dsimp only
    split <;> rfl
  have hLoop := ({ t with breaker := t.breaker.tripOpen } : Task).point_enterLoop now
  cases r with
  | ready =>
    obtain hWaiting | hPanic := t.point_enterLoop now
    · exact .inl hWaiting
    · exact .inr (.inl (congrArg point hPanic))
  | unavailable msg =>
    obtain hWaiting | hPanic := hLoop
    · exact .inl hWaiting
    · exact .inr (.inl ((congrArg point hPanic).trans hTripped))
  | fatal msg => exact .inr (.inr (.inr ⟨msg, rfl, rfl⟩))
  | notApplicable =>
    unfold probed
    dsimp only
    split
    · obtain hWaiting | hPanic := hLoop
      · exact .inl hWaiting
      · exact .inr (.inl ((congrArg point hPanic).trans hTripped))
    · exact .inr (.inr (.inl ⟨rfl, ‹_›, rfl⟩))

theorem reporting_of_panic {f : FatalSignal} {resume : Resume}
    (hPoint : t.panic.point = .reporting f resume) :
    f.source = t.desc.name ∧ t.desc.criticality = .critical := by
  obtain ⟨hEnded, -⟩ | ⟨hReporting, hCritical⟩ := t.point_panic
  · rw [hEnded] at hPoint
    cases hPoint
  · rw [hReporting] at hPoint
    cases hPoint
    exact ⟨rfl, hCritical⟩

/-- A report names its own source; and only a fatal probe makes an Optional source report. -/
theorem reporting_of_act (hAct : Act now room t e t' fatal) {f : FatalSignal} {resume : Resume}
    (hPoint' : t'.point = .reporting f resume) :
    f.source = t.desc.name ∧
      (t.desc.criticality = .critical ∨ ∃ msg, e = .probed (.fatal msg)) := by
  cases hAct with
  | probed r hPoint =>
    obtain hTo | hTo | ⟨-, -, hTo⟩ | ⟨msg, rfl, hTo⟩ := t.point_probed now r
    · rw [hTo] at hPoint'
      cases hPoint'
    · obtain ⟨hSource, hCritical⟩ := reporting_of_panic (hTo.symm.trans hPoint')
      exact ⟨hSource, .inl hCritical⟩
    · rw [hTo] at hPoint'
      cases hPoint'
    · rw [hTo] at hPoint'
      cases hPoint'
      exact ⟨rfl, .inr ⟨msg, rfl⟩⟩
  | probePanicked hPoint | retirePanicked _ _ hPoint =>
    obtain ⟨hSource, hCritical⟩ := reporting_of_panic hPoint'
    exact ⟨hSource, .inl hCritical⟩
  | collected outcome hPoint =>
    cases hCriticality : t.desc.criticality with
    | critical =>
      obtain hWaiting | ⟨reason, hReporting⟩ := t.point_collected outcome
      · rw [hWaiting] at hPoint'
        cases hPoint'
      · rw [hReporting] at hPoint'
        cases hPoint'
        exact ⟨rfl, .inl rfl⟩
    | optional =>
      rw [t.point_collected_of_optional hCriticality] at hPoint'
      cases hPoint'
  | ticked hPoint hDue =>
    obtain hTo | ⟨wake, hTo⟩ := t.point_ticked now
    · rw [hTo] at hPoint'
      cases hPoint'
    · rw [hTo] at hPoint'
      cases hPoint'
  | emitted signal hPoint =>
    rw [show (t.emit .collect signal).point = t.point from rfl, hPoint] at hPoint'
    cases hPoint'
  | reported _ resume' _ _ => cases resume' <;> cases hPoint'
  | stopSeen _ _ _ | woke _ _ _ | terminal _ _ _ _ | retired _ _ => cases hPoint'

/-- The ways in which a Critical source ends. -/
theorem finished_of_act (hAct : Act now room t e t' fatal) (hFinished : t'.finished)
    (hCritical : t.desc.criticality = .critical) :
    t.origin = .boot ∧ t'.point = .ended .notApplicable ∨
    (∃ f resume, t.point = .reporting f resume ∧ fatal = some f) ∨
    ∃ terminal, t.point = .retiring terminal [] := by
  have hPanic : t.panic.finished = false := by
    obtain ⟨-, hOptional⟩ | ⟨hReporting, -⟩ := t.point_panic
    · rw [hCritical] at hOptional
      cases hOptional
    · simp [finished, hReporting]
  cases hAct with
  | probed r hPoint =>
    obtain hTo | hTo | ⟨-, hBoot, hTo⟩ | ⟨msg, rfl, hTo⟩ := t.point_probed now r
    · simp [finished, hTo] at hFinished
    · rw [finished, hTo] at hFinished
      rw [finished, hFinished] at hPanic
      cases hPanic
    · exact .inl ⟨hBoot, hTo⟩
    · simp [finished, hTo] at hFinished
  | probePanicked hPoint | retirePanicked _ _ hPoint =>
    rw [hPanic] at hFinished
    cases hFinished
  | collected outcome hPoint =>
    obtain hWaiting | ⟨reason, hReporting⟩ := t.point_collected outcome
    · simp [finished, hWaiting] at hFinished
    · simp [finished, hReporting] at hFinished
  | ticked hPoint hDue =>
    obtain hTo | ⟨wake, hTo⟩ := t.point_ticked now
    · simp [finished, hTo] at hFinished
    · simp [finished, hTo] at hFinished
  | emitted signal hPoint => simp [finished, emit, hPoint] at hFinished
  | reported f resume hPoint hRoom => exact .inr (.inl ⟨f, resume, hPoint, rfl⟩)
  | retired terminal hPoint => exact .inr (.inr ⟨terminal, hPoint⟩)
  | stopSeen _ _ _ | woke _ _ _ | terminal _ _ _ _ => cases hFinished

theorem retiring_of_act (hAct : Act now room t e t' fatal) {terminal rest : List Signal}
    (hPoint' : t'.point = .retiring terminal rest) :
    e = .stopSeen terminal ∧ t.stop ≠ .pending ∨ ∃ rest, t.point = .retiring terminal rest := by
  have hPanic (hPoint : t.panic.point = .retiring terminal rest) : False := by
    obtain ⟨hEnded, -⟩ | ⟨hReporting, -⟩ := t.point_panic
    · rw [hEnded] at hPoint
      cases hPoint
    · rw [hReporting] at hPoint
      cases hPoint
  cases hAct with
  | probed r hPoint =>
    obtain hTo | hTo | ⟨-, -, hTo⟩ | ⟨msg, -, hTo⟩ := t.point_probed now r
    · rw [hTo] at hPoint'
      cases hPoint'
    · exact (hPanic (hTo.symm.trans hPoint')).elim
    · rw [hTo] at hPoint'
      cases hPoint'
    · rw [hTo] at hPoint'
      cases hPoint'
  | probePanicked hPoint | retirePanicked _ _ hPoint => exact (hPanic hPoint').elim
  | stopSeen _ hPoint hStop =>
    cases hPoint'
    exact .inl ⟨rfl, hStop⟩
  | terminal terminal' signal rest' hPoint =>
    cases hPoint'
    exact .inr ⟨_, hPoint⟩
  | emitted signal hPoint => exact .inr ⟨rest, hPoint'⟩
  | collected outcome hPoint =>
    obtain hTo | ⟨reason, hTo⟩ := t.point_collected outcome
    · rw [hTo] at hPoint'
      cases hPoint'
    · rw [hTo] at hPoint'
      cases hPoint'
  | ticked hPoint hDue =>
    obtain hTo | ⟨wake, hTo⟩ := t.point_ticked now
    · rw [hTo] at hPoint'
      cases hPoint'
    · rw [hTo] at hPoint'
      cases hPoint'
  | reported _ resume _ _ => cases resume <;> cases hPoint'
  | woke _ _ _ | retired _ _ => cases hPoint'

theorem unfinished_of_act (hAct : Act now room t e t' fatal) : t.finished = false := by
  cases hAct <;> simp [finished, *]

end Task

namespace Process

variable {p p' : Process} {e : ProcessEvent}

/-- No Optional source answers its probe with `Fatal`. -/
def wellProbed (p : Process) : ProcessEvent → Bool
  | .task i (.probed (.fatal _)) =>
    (p.supervisor.tasks[i]?).all fun t => t.desc.criticality = .critical
  | _ => true

structure OnlyCritical (p : Process) : Prop where
  reporting : ∀ (i : Nat) (t : Task), p.supervisor.tasks[i]? = some t →
    ∀ f resume, t.point = .reporting f resume →
      t.desc.criticality = .critical ∧ f.source = t.desc.name
  sent : ∀ i f, (i, f) ∈ p.sent → ∃ t, p.supervisor.tasks[i]? = some t ∧
    t.desc.criticality = .critical ∧ f.source = t.desc.name

theorem onlyCritical_new (criticalThreshold : UInt32) (boot : List SourceDescriptor) :
    OnlyCritical (new criticalThreshold boot) where
  reporting i t hTask := by simp [new, Supervisor.new] at hTask
  sent i f hSent := by cases hSent

theorem onlyCritical_of_act (hAct : Act p e p') (hProbed : p.wellProbed e) (h : OnlyCritical p) :
    OnlyCritical p' where
  reporting := by
    apply tasks_of_act (Q := fun _ _ t => ∀ f resume, t.point = .reporting f resume →
      t.desc.criticality = .critical ∧ f.source = t.desc.name) hAct h.reporting
    · intro i t t' hTask _ hEffect hOld f resume hPoint'
      cases hEffect with
      | same => exact hOld f resume hPoint'
      | removed name hEvent hName => exact hOld f resume hPoint'
      | dropped result hStage => exact hOld f resume hPoint'
      | aborted hUnfinished hWhy => cases hPoint'
      | moved e' t' fatal hEvent hTaskAct hSent =>
        obtain ⟨hSource, hCritical | ⟨msg, rfl⟩⟩ := Task.reporting_of_act hTaskAct hPoint'
        · rw [(Task.spec_of_act hTaskAct).1.desc]
          exact ⟨hCritical, hSource⟩
        · rw [(Task.spec_of_act hTaskAct).1.desc]
          subst hEvent
          exact ⟨by simpa [wellProbed, hTask] using hProbed, hSource⟩
    · intro desc origin _ f resume hPoint
      cases hPoint
  sent i f hSent := by
    obtain hOld | ⟨t, resume, hTask, hPoint⟩ := sent_of_act hAct hSent
    · obtain ⟨t, hTask, hCritical, hSource⟩ := h.sent i f hOld
      obtain ⟨t', hTask', hEffect⟩ := effect_of_task hAct hTask
      exact ⟨t', hTask', by rw [hEffect.desc]; exact ⟨hCritical, hSource⟩⟩
    · obtain ⟨hCritical, hSource⟩ := h.reporting i t hTask f resume hPoint
      obtain ⟨t', hTask', hEffect⟩ := effect_of_task hAct hTask
      exact ⟨t', hTask', by rw [hEffect.desc]; exact ⟨hCritical, hSource⟩⟩

/-- As long as no Optional source answers its probe with `Fatal`, every fatal signal that enters the
channel names the Critical source it comes from. -/
theorem fatal_signals_are_critical (criticalThreshold : UInt32) (boot : List SourceDescriptor)
    (events : List ProcessEvent) (p : Process)
    (hRun : Run step (fun p e => p.wellProbed e) (new criticalThreshold boot) events p) (i : Nat)
    (f : FatalSignal) (hSent : (i, f) ∈ p.sent) :
    ∃ t, p.supervisor.tasks[i]? = some t ∧ t.desc.criticality = .critical ∧
      f.source = t.desc.name := by
  have h : OnlyCritical p := hRun.invariant (onlyCritical_new criticalThreshold boot)
    fun _ _ _ h hProbed hStep => onlyCritical_of_act (act_of_step hStep) hProbed h
  exact h.sent i f hSent

/-- The first source answers its probe with `Fatal`, and the supervisor hears of it. -/
def probeFails : List ProcessEvent :=
  [.spawnBoot, .polled 0, .task 0 (.probed (.fatal "unreadable")), .task 0 .reported, .fatalReceived]

theorem an_unreadable_host_is_fatal :
    ∃ t, (after step (new 3 [hostDescriptor]) probeFails).supervisor.tasks[0]? = some t ∧
      t.desc.criticality = .critical ∧ "host" = t.desc.name :=
  fatal_signals_are_critical 3 [hostDescriptor] probeFails _ (run_after_guarded rfl) 0
    ⟨"host", "probe fatal: unreadable"⟩ (by decide)

theorem an_optional_probe_ends_the_process :
    ∃ p t f, Run step Any (new 3 [containerDescriptor]) probeFails p ∧ (0, f) ∈ p.sent ∧
      p.supervisor.tasks[0]? = some t ∧ f.source = t.desc.name ∧ t.desc.criticality = .optional ∧
      p.stage = .aborting (.error f) :=
  ⟨_, _, ⟨"container", "probe fatal: unreadable"⟩, run_of_exec rfl, by decide, rfl, rfl, rfl, rfl⟩

/-- A stop was sent to the task, or the shutdown has aborted it. -/
def Excused (p : Process) (i : Nat) : Prop :=
  (∃ t, p.supervisor.tasks[i]? = some t ∧ t.stop = .sent) ∨ i ∈ p.shutDown

def Heard (p : Process) (i : Nat) (t : Task) : Prop := ∃ f, (i, f) ∈ p.sent ∧ f.source = t.desc.name

/-- Why a task has its stop and why it has ended. -/
structure Answered (p : Process) (i : Nat) (t : Task) : Prop where
  stop : t.stop ≠ .pending → Excused p i
  retiring : ∀ terminal rest, t.point = .retiring terminal rest → Excused p i
  reporting : ∀ f resume, t.point = .reporting f resume → f.source = t.desc.name
  alive : t.finished = false → Excused p i ∨ p.supervisor.registry.lookup t.desc.name = some i
  dead : t.finished → t.desc.criticality = .critical → Excused p i ∨ Heard p i t ∨
    t.origin = .boot ∧ t.point = .ended .notApplicable

structure Accounted (p : Process) : Prop where
  tasks : ∀ i t, p.supervisor.tasks[i]? = some t → Answered p i t
  removal : ∀ r, p.supervisor.removal = some r → Excused p r.task
  condemned : ∀ i ∈ p.condemned, Excused p i
  dropping : ∀ result i, p.stage = .dropping result i → i ∈ p.shutDown
  drained : p.stage.drained → p.supervisor.registry.entries = []

theorem Accounted.excused {i : Nat} (h : Accounted p) (hAct : Act p e p') (hExcused : Excused p i) :
    Excused p' i := by
  have hGrows := (grows_of_act hAct).2
  obtain ⟨t, hTask, hStop⟩ | hShutDown := hExcused
  · obtain ⟨t', hTask', hEffect⟩ := effect_of_task hAct hTask
    cases hEffect with
    | removed name hEvent hName => exact .inl ⟨_, hTask', rfl⟩
    | dropped result hStage => exact .inr (hGrows (h.dropping result i hStage))
    | moved e' _ fatal hEvent hTaskAct hSent =>
      exact .inl ⟨t', hTask', (Task.spec_of_act hTaskAct).1.stop.trans hStop⟩
    | _ => exact .inl ⟨_, hTask', hStop⟩
  · exact .inr (hGrows hShutDown)

theorem registered_of_act (hAct : Act p e p') {name : String} {i : Nat}
    (hName : p.supervisor.registry.lookup name = some i) {t' : Task}
    (hTask : p'.supervisor.tasks[i]? = some t') :
    Excused p' i ∨ p'.supervisor.registry.lookup name = some i := by
  have hInsert {desc : SourceDescriptor} (hNew : desc.name ∉ p.supervisor.registry) (n : Nat) :
      (p.supervisor.registry.insert desc.name n).lookup name = some i := by
    rw [AList.lookup_insert_ne, hName]
    rintro rfl
    rw [AList.lookup_eq_none.mpr hNew] at hName
    cases hName
  cases hAct with
  | spawnBoot s hRunning hAct =>
    cases hAct with
    | bootDuplicate desc boot hBoot hName' => exact .inr hName
    | bootSpawned desc boot hBoot hNew => exact .inr (hInsert hNew _)
  | command cmd s hRunning hAct =>
    cases hAct with
    | addDuplicate desc hIdle hName' => exact .inr hName
    | added desc hIdle hNew => exact .inr (hInsert hNew _)
    | removeMissing name' hIdle hName' => exact .inr hName
    | removed name' j hIdle hName' =>
      obtain rfl | hOther := eq_or_ne name name'
      · obtain rfl := Option.some.inj (hName.symm.trans hName')
        have hStop := hTask
        dsimp only at hStop
        rw [List.getElem?_modify_eq] at hStop
        obtain ⟨t, -, rfl⟩ := Option.map_eq_some_iff.mp hStop
        exact .inl (.inl ⟨_, hTask, rfl⟩)
      · exact .inr ((AList.lookup_erase_ne hOther).trans hName)
  | joined s hRunning hAct =>
    cases hAct with
    | joined r hRemoval hFinished => exact .inr hName
  | timedOut r hRunning hRemoval hUnfinished =>
    unfold abort
    split_ifs <;> exact .inr hName
  | aborts name' result j hStage hName' =>
    obtain rfl | hOther := eq_or_ne name name'
    · obtain rfl := Option.some.inj (hName.symm.trans hName')
      left
      right
      rw [shutDown_abort]
      exact List.mem_cons_self
    · right
      rw [registry_abort]
      exact (AList.lookup_erase_ne hOther).trans hName
  | _ => exact .inr hName

theorem accounted_new (criticalThreshold : UInt32) (boot : List SourceDescriptor) :
    Accounted (new criticalThreshold boot) where
  tasks i t hTask := by simp [new, Supervisor.new] at hTask
  removal r hRemoval := by cases hRemoval
  condemned i hCondemned := by cases hCondemned
  dropping result i hStage := by cases hStage
  drained hDrained := by cases hDrained

/-- What an aborted task was aborted for. -/
theorem Accounted.of_aborted {i : Nat} (h : Accounted p) (hAct : Act p e p')
    (hWhy : (∃ r, p.supervisor.removal = some r ∧ r.task = i) ∨ i ∈ p'.shutDown ∨
      i ∈ p.condemned) : Excused p' i := by
  obtain ⟨r, hRemoval, rfl⟩ | hShutDown | hCondemned := hWhy
  · exact h.excused hAct (h.removal r hRemoval)
  · exact .inr hShutDown
  · exact h.excused hAct (h.condemned i hCondemned)

/-- A report that ends its task enters the channel: once the receiver is gone, only tasks that were
stopped or aborted are left. -/
theorem Accounted.heard {i : Nat} {t t' : Task} {f : FatalSignal} {resume : Resume}
    (h : Accounted p) (hTask : p.supervisor.tasks[i]? = some t)
    (hPoint : t.point = .reporting f resume) (hDesc : t'.desc = t.desc)
    (hSent : p'.sent = p.sent ++ (p.delivered (some f)).map (i, ·)) :
    Excused p i ∨ Heard p' i t' := by
  have hAnswered := h.tasks i t hTask
  cases hClosed : p.stage.closed with
  | true =>
    have hEmpty := h.drained (Stage.drained_of_closed hClosed)
    obtain hExcused | hLookup := hAnswered.alive (by simp [Task.finished, hPoint])
    · exact .inl hExcused
    · have hMem : ⟨t.desc.name, i⟩ ∈ p.supervisor.registry.entries := AList.mem_lookup_iff.mp hLookup
      rw [hEmpty] at hMem
      cases hMem
  | false =>
    refine .inr ⟨f, ?_, ?_⟩
    · simp [hSent, delivered, hClosed]
    · rw [hDesc]
      exact hAnswered.reporting f resume hPoint

theorem Accounted.dead {i : Nat} {t t' : Task} (h : Accounted p) (hAct : Act p e p')
    (hTask : p.supervisor.tasks[i]? = some t) (hEffect : Effect p e p' i t t')
    (hFinished : t'.finished) (hCritical : t'.desc.criticality = .critical) :
    Excused p' i ∨ Heard p' i t' ∨ t'.origin = .boot ∧ t'.point = .ended .notApplicable := by
  have hAnswered := h.tasks i t hTask
  have hKeep := h.excused hAct (i := i)
  rw [hEffect.desc] at hCritical
  have hOld (hPoint : t'.point = t.point) (hOrigin : t'.origin = t.origin) :
      Excused p' i ∨ Heard p' i t' ∨ t'.origin = .boot ∧ t'.point = .ended .notApplicable := by
    rw [Task.finished, hPoint] at hFinished
    obtain hExcused | ⟨f, hSent, hSource⟩ | ⟨hBoot, hEnded⟩ := hAnswered.dead hFinished hCritical
    · exact .inl (hKeep hExcused)
    · exact .inr (.inl ⟨f, (grows_of_act hAct).1 hSent, by rw [hEffect.desc]; exact hSource⟩)
    · exact .inr (.inr ⟨hOrigin.trans hBoot, hPoint.trans hEnded⟩)
  cases hEffect with
  | same => exact hOld rfl rfl
  | removed name hEvent hName => exact hOld rfl rfl
  | dropped result hStage => exact hOld rfl rfl
  | aborted hUnfinished hWhy => exact .inl (h.of_aborted hAct hWhy)
  | moved e' _ fatal hEvent hTaskAct hSent =>
    have hSame := (Task.spec_of_act hTaskAct).1
    obtain ⟨hBoot, hEnded⟩ | ⟨f, resume, hPoint, rfl⟩ | ⟨terminal, hPoint⟩ :=
      Task.finished_of_act hTaskAct hFinished hCritical
    · exact .inr (.inr ⟨hSame.origin.trans hBoot, hEnded⟩)
    · obtain hExcused | hHeard := h.heard hTask hPoint hSame.desc hSent
      · exact .inl (hKeep hExcused)
      · exact .inr (.inl hHeard)
    · exact .inl (hKeep (hAnswered.retiring terminal [] hPoint))

theorem Accounted.answered {i : Nat} {t t' : Task} (h : Accounted p) (hAct : Act p e p')
    (hTask : p.supervisor.tasks[i]? = some t) (hTask' : p'.supervisor.tasks[i]? = some t')
    (hEffect : Effect p e p' i t t') : Answered p' i t' := by
  have hAnswered := h.tasks i t hTask
  have hKeep := h.excused hAct (i := i)
  refine ⟨?_, ?_, ?_, ?_, h.dead hAct hTask hEffect⟩
  · intro hStop
    cases hEffect with
    | removed name hEvent hName => exact .inl ⟨_, hTask', rfl⟩
    | dropped result hStage => exact .inr ((grows_of_act hAct).2 (h.dropping result i hStage))
    | moved e' _ fatal hEvent hTaskAct hSent =>
      rw [(Task.spec_of_act hTaskAct).1.stop] at hStop
      exact hKeep (hAnswered.stop hStop)
    | _ => exact hKeep (hAnswered.stop hStop)
  · intro terminal rest hPoint
    cases hEffect with
    | aborted hUnfinished hWhy => cases hPoint
    | moved e' _ fatal hEvent hTaskAct hSent =>
      obtain ⟨-, hStop⟩ | ⟨rest', hRetiring⟩ := Task.retiring_of_act hTaskAct hPoint
      · exact hKeep (hAnswered.stop hStop)
      · exact hKeep (hAnswered.retiring terminal rest' hRetiring)
    | _ => exact hKeep (hAnswered.retiring terminal rest hPoint)
  · intro f resume hPoint
    rw [hEffect.desc]
    cases hEffect with
    | aborted hUnfinished hWhy => cases hPoint
    | moved e' _ fatal hEvent hTaskAct hSent => exact (Task.reporting_of_act hTaskAct hPoint).1
    | _ => exact hAnswered.reporting f resume hPoint
  · intro hUnfinished'
    have hUnfinished : t.finished = false := by
      cases hEffect with
      | aborted hUnfinished hWhy => exact hUnfinished
      | moved e' _ fatal hEvent hTaskAct hSent => exact Task.unfinished_of_act hTaskAct
      | _ => exact hUnfinished'
    rw [hEffect.desc]
    obtain hExcused | hName := hAnswered.alive hUnfinished
    · exact .inl (hKeep hExcused)
    · exact registered_of_act hAct hName hTask'

theorem accounted_of_act (hAct : Act p e p') (hHandled : Handled p) (h : Accounted p) :
    Accounted p' where
  tasks := by
    apply tasks_of_act hAct h.tasks
    · intro i t t' hTask hTask' hEffect _
      exact h.answered hAct hTask hTask' hEffect
    · intro desc origin hName
      exact ⟨fun hStop => absurd rfl hStop, nofun, nofun, fun _ => .inr hName, nofun⟩
  removal r hRemoval := by
    have hKeep (hOld : p.supervisor.removal = some r) : Excused p' r.task :=
      h.excused hAct (h.removal r hOld)
    cases hAct with
    | spawnBoot s hRunning hAct => cases hAct <;> exact hKeep hRemoval
    | command cmd s hRunning hAct =>
      cases hAct with
      | removed name i hIdle hName =>
        cases hRemoval
        obtain ⟨t, hTask, -⟩ := hHandled name i hName
        exact .inl ⟨_, by rw [List.getElem?_modify_eq, hTask]; rfl, rfl⟩
      | _ => exact hKeep hRemoval
    | joined s hRunning hAct =>
      cases hAct
      cases hRemoval
    | timedOut r' hRunning hSome hUnfinished =>
      rw [removal_abort] at hRemoval
      cases hRemoval
    | aborts name result i hStage hName =>
      rw [removal_abort] at hRemoval
      exact hKeep hRemoval
    | _ => exact hKeep hRemoval
  condemned i hCondemned := by
    have hKeep (hOld : i ∈ p.condemned) : Excused p' i := h.excused hAct (h.condemned i hOld)
    cases hAct with
    | timedOut r hRunning hRemoval hUnfinished =>
      obtain rfl | hOld := mem_condemned_abort hCondemned
      · exact h.excused (.timedOut r hRunning hRemoval hUnfinished) (h.removal r hRemoval)
      · exact hKeep hOld
    | aborts name result j hStage hName =>
      obtain rfl | hOld := mem_condemned_abort hCondemned
      · right
        rw [shutDown_abort]
        exact List.mem_cons_self
      · exact hKeep hOld
    | yielded j hBusy hSpared | ended j hBusy hDone => exact hKeep (List.mem_filter.mp hCondemned).1
    | _ => exact hKeep hCondemned
  dropping result i hStage := by
    cases hAct with
    | aborts name result' j hAborting hName =>
      rw [stage_abort] at hStage
      rw [shutDown_abort]
      cases hStage
      exact List.mem_cons_self
    | timedOut r hRunning hRemoval hUnfinished =>
      rw [stage_abort] at hStage
      rw [shutDown_abort]
      exact h.dropping result i hStage
    | fatalReceived | ctrlC | drops | drained | returned => cases hStage
    | _ => exact h.dropping result i hStage
  drained hDrained := by
    cases hAct with
    | spawnBoot _ hRunning | command _ _ hRunning | joined _ hRunning =>
      rw [show p.stage = .running from hRunning] at hDrained
      cases hDrained
    | timedOut r hRunning hRemoval hUnfinished =>
      rw [stage_abort, show p.stage = .running from hRunning] at hDrained
      cases hDrained
    | aborts name result i hStage hName =>
      rw [stage_abort] at hDrained
      cases hDrained
    | fatalReceived | ctrlC | drops => cases hDrained
    | drained result hStage hEmpty => exact hEmpty
    | returned result hStage => exact h.drained (by rw [hStage]; rfl)
    | _ => exact h.drained hDrained

theorem accounted_of_reaches {criticalThreshold : UInt32} {boot : List SourceDescriptor}
    (h : Reaches step (new criticalThreshold boot) p) : Accounted p := by
  have hBoth := h.invariant (I := fun p => Handled p ∧ Accounted p)
    ⟨handled_new criticalThreshold boot, accounted_new criticalThreshold boot⟩ ?_
  · exact hBoth.2
  · rintro p e p' ⟨hHandled, hAccounted⟩ hStep
    have hAct := act_of_step hStep
    exact ⟨handled_of_act hAct hHandled, accounted_of_act hAct hHandled hAccounted⟩

/-- A Critical source that has ended without a stop and without the shutdown having aborted it was
reported dead; or it came with the boot and its probe returned `NotApplicable`. -/
theorem critical_never_dies_silently (criticalThreshold : UInt32) (boot : List SourceDescriptor)
    (p : Process) (hReach : Reaches step (new criticalThreshold boot) p) (i : Nat) (t : Task)
    (hTask : p.supervisor.tasks[i]? = some t) (hCritical : t.desc.criticality = .critical)
    (hFinished : t.finished) (hStop : t.stop ≠ .sent) (hShutDown : i ∉ p.shutDown) :
    (∃ f, (i, f) ∈ p.sent ∧ f.source = t.desc.name) ∨
      t.origin = .boot ∧ t.point = .ended .notApplicable := by
  have h : Accounted p := accounted_of_reaches hReach
  obtain ⟨u, hTask', hSent⟩ | hAborted | hHeard | hNotApplicable :=
    or_assoc.mp ((h.tasks i t hTask).dead hFinished hCritical)
  · obtain rfl := Option.some.inj (hTask.symm.trans hTask')
    exact absurd hSent hStop
  · exact absurd hAborted hShutDown
  · exact .inl hHeard
  · exact .inr hNotApplicable

theorem an_unreadable_host_is_heard_of :
    let p := after step (new 3 [hostDescriptor]) probeFails
    ∃ f, (0, f) ∈ p.sent ∧ f.source = "host" := by
  intro p
  obtain hHeard | ⟨-, hPoint⟩ := critical_never_dies_silently 3 [hostDescriptor] p
    (run_after rfl).reaches 0 _ rfl rfl rfl nofun (by decide)
  · exact hHeard
  · cases hPoint

theorem an_inapplicable_host_dies_silently :
    ∃ p t, Reaches step (new 3 [hostDescriptor]) p ∧ p.supervisor.tasks[0]? = some t ∧
      t.desc.criticality = .critical ∧ t.finished ∧ t.stop = .pending ∧ p.shutDown = [] ∧
      p.sent = [] :=
  ⟨after step (new 3 [hostDescriptor]) [.spawnBoot, .polled 0, .task 0 (.probed .notApplicable)], _,
    (run_after rfl).reaches, rfl, rfl, rfl, rfl, rfl, rfl⟩

end Process

end HarnessSphere
