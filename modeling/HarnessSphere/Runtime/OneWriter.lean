import HarnessSphere.Runtime.Supervisor

/-! # One writer per name

The registry and the tasks are kept in step: a handle leads to a task of its name, and a task that
has not finished has its handle in the registry or is the one being removed. A finished task takes no
step, so what it sent stays as it was.
-/

namespace HarnessSphere.Supervisor

open Machine

structure Registered (s : Supervisor) : Prop where
  handle : ∀ name i, s.registry.lookup name = some i →
    ∃ t, s.tasks[i]? = some t ∧ t.desc.name = name
  addressable : ∀ i t, s.tasks[i]? = some t → t.finished = false →
    s.registry.lookup t.desc.name = some i ∨ ∃ r, s.removal = some r ∧ r.task = i
  removed : ∀ r, s.removal = some r →
    ∃ t, s.tasks[r.task]? = some t ∧ s.registry.lookup t.desc.name = none
  booted : s.boot ≠ [] → s.removal = none

theorem registered_new (criticalThreshold : UInt32) (boot : List SourceDescriptor) :
    Registered (new criticalThreshold boot) where
  handle name i h := by cases h
  addressable i t h := by simp [new] at h
  removed r h := by cases h
  booted _ := rfl

theorem Registered.idle {s : Supervisor} (h : Registered s) {desc : SourceDescriptor}
    {boot : List SourceDescriptor} (hBoot : s.boot = desc :: boot) : s.removal = none :=
  h.booted (by simp [hBoot])

theorem Registered.spawn {s : Supervisor} (h : Registered s) (hIdle : s.removal = none)
    {desc : SourceDescriptor} (hName : desc.name ∉ s.registry) (boot : List SourceDescriptor)
    (origin : Origin) :
    Registered
      { s with
        boot := boot
        tasks := s.tasks ++ [.spawn desc origin s.criticalThreshold]
        registry := s.registry.insert desc.name s.tasks.length } := by
  have hAppend {i : Nat} {t : Task} (ht : s.tasks[i]? = some t) :
      (s.tasks ++ [Task.spawn desc origin s.criticalThreshold])[i]? = some t :=
    (List.getElem?_append_left (List.getElem?_eq_some_iff.mp ht).1).trans ht
  have hNone : s.registry.lookup desc.name = none := AList.lookup_eq_none.mpr hName
  refine ⟨?_, ?_, ?_, fun _ => hIdle⟩
  · intro name i hLookup
    dsimp only at hLookup ⊢
    obtain rfl | hEq := eq_or_ne name desc.name
    · rw [AList.lookup_insert, Option.some.injEq] at hLookup
      subst hLookup
      exact ⟨_, List.getElem?_concat_length, rfl⟩
    · rw [AList.lookup_insert_ne hEq] at hLookup
      obtain ⟨t, ht, hDesc⟩ := h.handle name i hLookup
      exact ⟨t, hAppend ht, hDesc⟩
  · intro i t hTask hUnfinished
    dsimp only at hTask ⊢
    left
    rcases Nat.lt_or_ge i s.tasks.length with hLt | hGe
    · rw [List.getElem?_append_left hLt] at hTask
      obtain hLookup | ⟨r, hr, -⟩ := h.addressable i t hTask hUnfinished
      · rw [AList.lookup_insert_ne, hLookup]
        rintro hEq
        rw [hEq, hNone] at hLookup
        cases hLookup
      · rw [hIdle] at hr
        cases hr
    · have hLt := (List.getElem?_eq_some_iff.mp hTask).1
      simp only [List.length_append, List.length_singleton] at hLt
      obtain rfl : i = s.tasks.length := by omega
      rw [List.getElem?_concat_length, Option.some.injEq] at hTask
      subst hTask
      exact AList.lookup_insert _
  · intro r hr
    rw [show s.removal = some r from hr] at hIdle
    cases hIdle

theorem Registered.remove {s : Supervisor} (h : Registered s) (hIdle : s.boot = [] ∧ s.removal = none)
    {name : String} {i : Nat} (hName : s.registry.lookup name = some i) :
    Registered
      { s with
        registry := s.registry.erase name
        tasks := s.tasks.modify i fun t => { t with stop := .sent }
        removal := some ⟨i, s.now + retireTimeout⟩ } := by
  have hModify {j : Nat} {t : Task} (ht : s.tasks[j]? = some t) :
      ∃ t', (s.tasks.modify i fun t => { t with stop := .sent })[j]? = some t' ∧
        t'.desc = t.desc := by
    rw [List.getElem?_modify, ht]
    exact ⟨_, rfl, by dsimp only; split <;> rfl⟩
  refine ⟨?_, ?_, ?_, fun hBoot => absurd hIdle.1 hBoot⟩
  · intro name' j hLookup
    dsimp only at hLookup ⊢
    obtain rfl | hEq := eq_or_ne name' name
    · rw [AList.lookup_erase] at hLookup
      cases hLookup
    · rw [AList.lookup_erase_ne hEq] at hLookup
      obtain ⟨t, ht, hDesc⟩ := h.handle name' j hLookup
      obtain ⟨t', ht', hDesc'⟩ := hModify ht
      exact ⟨t', ht', by rw [hDesc', hDesc]⟩
  · intro j t' hTask hUnfinished
    dsimp only at hTask ⊢
    rw [List.getElem?_modify] at hTask
    obtain ⟨t, ht, rfl⟩ := Option.map_eq_some_iff.mp hTask
    have hUnfinished' : t.finished = false := by
      split at hUnfinished <;> exact hUnfinished
    obtain hLookup | ⟨r, hr, -⟩ := h.addressable j t ht hUnfinished'
    · obtain hij | hij := eq_or_ne i j
      · exact .inr ⟨_, rfl, hij⟩
      · rw [if_neg hij, AList.lookup_erase_ne]
        · exact .inl hLookup
        · intro hEq
          rw [hEq, hName] at hLookup
          exact hij (Option.some.inj hLookup)
    · rw [hIdle.2] at hr
      cases hr
  · intro r hr
    obtain rfl := Option.some.inj hr
    obtain ⟨t, ht, hDesc⟩ := h.handle name i hName
    obtain ⟨t', ht', hDesc'⟩ := hModify ht
    exact ⟨t', ht', by rw [hDesc', hDesc]; exact AList.lookup_erase _ _⟩

/-- Tasks that evolve keep the registry right as long as the removed one is not forgotten before it
has finished. -/
theorem Registered.evolve {s : Supervisor} (h : Registered s) {tasks : List Task}
    (hForward : ∀ (i : Nat) (t : Task), s.tasks[i]? = some t →
      ∃ t', tasks[i]? = some t' ∧ Evolves t t')
    (hBack : ∀ (i : Nat) (t' : Task), tasks[i]? = some t' →
      ∃ t, s.tasks[i]? = some t ∧ Evolves t t')
    {removal : Option Removal}
    (hRemoval : removal = s.removal ∨
      removal = none ∧ ∀ r, s.removal = some r → ∀ t : Task, tasks[r.task]? = some t → t.finished)
    (now : Nat) (fatal : List FatalSignal) :
    Registered { s with tasks := tasks, removal := removal, now := now, fatal := fatal } := by
  refine ⟨?_, ?_, ?_, ?_⟩
  · intro name i hLookup
    obtain ⟨t, ht, hDesc⟩ := h.handle name i hLookup
    obtain ⟨t', ht', hEvolves⟩ := hForward i t ht
    exact ⟨t', ht', by rw [hEvolves.desc, hDesc]⟩
  · intro i t' hTask hUnfinished
    obtain ⟨t, ht, hEvolves⟩ := hBack i t' hTask
    dsimp only at hTask ⊢
    rw [hEvolves.desc]
    have hUnfinished' : t.finished = false := by
      by_contra hFinished
      rw [(hEvolves.of_finished (by simpa using hFinished)).1] at hUnfinished
      cases hUnfinished
    obtain hLookup | ⟨r, hr, hri⟩ := h.addressable i t ht hUnfinished'
    · exact .inl hLookup
    · rcases hRemoval with rfl | ⟨-, hDone⟩
      · exact .inr ⟨r, hr, hri⟩
      · rw [hDone r hr t' (hri ▸ hTask)] at hUnfinished
        cases hUnfinished
  · intro r hr
    rcases hRemoval with rfl | ⟨rfl, -⟩
    · obtain ⟨t, ht, hNone⟩ := h.removed r hr
      obtain ⟨t', ht', hEvolves⟩ := hForward _ t ht
      exact ⟨t', ht', by rw [hEvolves.desc]; exact hNone⟩
    · cases hr
  · intro hBoot
    rcases hRemoval with rfl | ⟨rfl, -⟩
    · exact h.booted hBoot
    · rfl

theorem evolves_back {s s' : Supervisor} {e : SupervisorEvent} (h : Act s e s')
    (hLength : s'.tasks.length = s.tasks.length) {i : Nat} {t' : Task} (hTask : s'.tasks[i]? = some t') :
    ∃ t, s.tasks[i]? = some t ∧ Evolves t t' := by
  obtain hOld | ⟨rfl, -⟩ := origin_of_act h hTask
  · exact hOld
  · have hLt := (List.getElem?_eq_some_iff.mp hTask).1
    omega

theorem registered_of_act {s s' : Supervisor} {e : SupervisorEvent} (hAct : Act s e s')
    (h : Registered s) : Registered s' := by
  have hForward : ∀ (i : Nat) (t : Task), s.tasks[i]? = some t →
      ∃ t', s'.tasks[i]? = some t' ∧ Evolves t t' := fun _ _ => evolves_of_act hAct
  have hBack (hLength : s'.tasks.length = s.tasks.length) : ∀ (i : Nat) (t' : Task),
      s'.tasks[i]? = some t' → ∃ t, s.tasks[i]? = some t ∧ Evolves t t' :=
    fun _ _ => evolves_back hAct hLength
  cases hAct with
  | bootDuplicate desc boot hBoot hName =>
    exact ⟨h.handle, h.addressable, h.removed, fun _ => h.idle hBoot⟩
  | bootSpawned desc boot hBoot hName => exact h.spawn (h.idle hBoot) hName boot .boot
  | addDuplicate desc hIdle hName => exact h
  | added desc hIdle hName => exact h.spawn hIdle.2 hName s.boot .discovered
  | removeMissing name hIdle hName => exact h
  | removed name i hIdle hName => exact h.remove hIdle hName
  | joined r hRemoval hFinished =>
    refine h.evolve hForward (hBack rfl) (.inr ⟨rfl, ?_⟩) _ _
    intro r' hr' t ht
    obtain rfl := Option.some.inj (hRemoval.symm.trans hr')
    simpa [finished, show s.tasks[r.task]? = some t from ht] using hFinished
  | timedOut r hRemoval hDeadline hUnfinished =>
    refine h.evolve hForward (hBack (List.length_modify _ _ _)) (.inr ⟨rfl, ?_⟩) _ _
    intro r' hr' t ht
    obtain rfl := Option.some.inj (hRemoval.symm.trans hr')
    rw [List.getElem?_modify_eq] at ht
    obtain ⟨u, -, rfl⟩ := Option.map_eq_some_iff.mp ht
    rfl
  | task i e t t' fatal hTask hStep =>
    exact h.evolve hForward (hBack List.length_set) (.inl rfl) _ _
  | advance => exact h.evolve hForward (hBack rfl) (.inl rfl) _ _

theorem registered_of_reaches {criticalThreshold : UInt32} {boot : List SourceDescriptor}
    {s : Supervisor} (h : Reaches step (new criticalThreshold boot) s) : Registered s :=
  h.invariant (registered_new criticalThreshold boot)
    fun _ _ _ hRegistered hStep => registered_of_act (act_of_step hStep) hRegistered

/-- Every task sent its collections first and its retirement last. -/
def BlocksSent (s : Supervisor) : Prop :=
  ∀ (i : Nat) (t : Task), s.tasks[i]? = some t → ∃ before after, t.SentBlocks before after

theorem Evolves.sentBlocks {t t' : Task} (h : Evolves t t') {before after : List (Phase × Signal)}
    (hBlocks : t.SentBlocks before after) : ∃ before' after', t'.SentBlocks before' after' := by
  cases h with
  | same => exact ⟨before, after, hBlocks⟩
  | stopped => exact ⟨before, after, hBlocks.sent, hBlocks.collects, hBlocks.retires, hBlocks.live,
      hBlocks.retiring, hBlocks.retired⟩
  | aborted _ => exact ⟨before, after, hBlocks.of_failed rfl rfl⟩
  | moved now room e _ fatal hStep => exact hBlocks.move (Task.step_spec hStep).2

theorem blocksSent_of_act {s s' : Supervisor} {e : SupervisorEvent} (hAct : Act s e s')
    (h : BlocksSent s) : BlocksSent s' := by
  intro i t' hTask
  obtain ⟨t, ht, hEvolves⟩ | ⟨-, desc, origin, rfl, -⟩ := origin_of_act hAct hTask
  · obtain ⟨before, after, hBlocks⟩ := h i t ht
    exact hEvolves.sentBlocks hBlocks
  · exact ⟨[], [], Task.sentBlocks_spawn _ _ _⟩

theorem blocksSent_of_reaches {criticalThreshold : UInt32} {boot : List SourceDescriptor}
    {s : Supervisor} (h : Reaches step (new criticalThreshold boot) s) : BlocksSent s := by
  apply h.invariant (I := BlocksSent)
  · intro i t hTask
    simp [new] at hTask
  · intro a l b hBlocks hStep
    exact blocksSent_of_act (act_of_step hStep) hBlocks

theorem sent_of_finished {s s' : Supervisor} (h : Reaches step s s') {i : Nat} {t : Task}
    (hTask : s.tasks[i]? = some t) (hFinished : t.finished) :
    ∃ t', s'.tasks[i]? = some t' ∧ t'.finished ∧ t'.sent = t.sent := by
  apply h.invariant (I := fun s' => ∃ t', s'.tasks[i]? = some t' ∧ t'.finished ∧ t'.sent = t.sent)
  · exact ⟨t, hTask, hFinished, rfl⟩
  · rintro a l b ⟨u, hu, hDone, hSent⟩ hStep
    obtain ⟨u', hu', hEvolves⟩ := evolves_of_act (act_of_step hStep) hu
    obtain ⟨hDone', hSent'⟩ := hEvolves.of_finished hDone
    exact ⟨u', hu', hDone', hSent'.trans hSent⟩

/-- A task that is done, or whose removal the supervisor waits for. -/
def Removing (i : Nat) (s : Supervisor) : Prop :=
  ∃ t, s.tasks[i]? = some t ∧ (t.finished ∨ ∃ r, s.removal = some r ∧ r.task = i)

theorem removing_of_act {s s' : Supervisor} {e : SupervisorEvent} (hAct : Act s e s') {i : Nat}
    (h : Removing i s) : Removing i s' := by
  obtain ⟨t, hTask, hState⟩ := h
  obtain ⟨t', hTask', hEvolves⟩ := evolves_of_act hAct hTask
  refine ⟨t', hTask', ?_⟩
  rcases hState with hFinished | ⟨r, hr, rfl⟩
  · exact .inl (hEvolves.of_finished hFinished).1
  · cases hAct with
    | addDuplicate desc hIdle | added desc hIdle | removeMissing name hIdle | removed name j hIdle =>
      rw [hIdle.2] at hr
      cases hr
    | joined r' hRemoval hFinished =>
      obtain rfl := Option.some.inj (hr.symm.trans hRemoval)
      left
      apply (hEvolves.of_finished _).1
      simpa [finished, hTask] using hFinished
    | timedOut r' hRemoval =>
      obtain rfl := Option.some.inj (hr.symm.trans hRemoval)
      rw [List.getElem?_modify_eq] at hTask'
      obtain ⟨u, -, rfl⟩ := Option.map_eq_some_iff.mp hTask'
      exact .inl rfl
    | _ => exact .inr ⟨r, hr, rfl⟩

theorem removing_of_remove {s s' : Supervisor} (h : Registered s) {name : String} {i : Nat}
    (hName : s.registry.lookup name = some i)
    (hStep : step s (.command (.remove name)) = some s') : Removing i s' := by
  obtain ⟨t, hTask, -⟩ := h.handle name i hName
  have hAct := act_of_step hStep
  obtain ⟨t', hTask', -⟩ := evolves_of_act hAct hTask
  refine ⟨t', hTask', .inr ?_⟩
  cases hAct with
  | removeMissing _ _ hNone =>
    rw [hName] at hNone
    cases hNone
  | removed _ j _ hSome =>
    obtain rfl := Option.some.inj (hName.symm.trans hSome)
    exact ⟨_, rfl, rfl⟩

/-- At every state before shutdown: two unfinished tasks of one name are one task; an unfinished task
is the one the registry holds under its name, or the one being removed; each task sent collections
first and its retirement last; and once a removal is through, its task sends nothing more. -/
theorem one_writer_per_name (criticalThreshold : UInt32) (boot : List SourceDescriptor)
    (s : Supervisor) (hReach : Reaches step (new criticalThreshold boot) s) :
    (∀ (i j : Nat) (t u : Task), s.tasks[i]? = some t → s.tasks[j]? = some u →
      t.finished = false → u.finished = false → t.desc.name = u.desc.name → i = j) ∧
    (∀ (i : Nat) (t : Task), s.tasks[i]? = some t → t.finished = false →
      s.registry.lookup t.desc.name = some i ∨ ∃ r, s.removal = some r ∧ r.task = i) ∧
    (∀ (i : Nat) (t : Task), s.tasks[i]? = some t → ∃ before after, t.sent = before ++ after ∧
      (∀ x ∈ before, x.1 = .collect) ∧ ∀ x ∈ after, x.1 = .retire) ∧
    ∀ (name : String) (i : Nat) (removed through later : Supervisor),
      s.registry.lookup name = some i → step s (.command (.remove name)) = some removed →
      Reaches step removed through → through.removal = none → Reaches step through later →
      ∃ t t', through.tasks[i]? = some t ∧ later.tasks[i]? = some t' ∧ t.finished ∧ t'.finished ∧
        t'.sent = t.sent := by
  have h := registered_of_reaches hReach
  refine ⟨?_, h.addressable, ?_, ?_⟩
  · intro i j t u hi hj hUnfinished hUnfinished' hName
    obtain hLookup | ⟨r, hr, rfl⟩ := h.addressable i t hi hUnfinished
    · obtain hLookup' | ⟨r, hr, rfl⟩ := h.addressable j u hj hUnfinished'
      · rw [hName, hLookup'] at hLookup
        exact (Option.some.inj hLookup).symm
      · -- the removed task has no handle left under its name
        obtain ⟨v, hv, hNone⟩ := h.removed r hr
        obtain rfl := Option.some.inj (hj.symm.trans hv)
        rw [hName, hNone] at hLookup
        cases hLookup
    · obtain ⟨v, hv, hNone⟩ := h.removed r hr
      obtain rfl := Option.some.inj (hi.symm.trans hv)
      obtain hLookup' | ⟨r', hr', rfl⟩ := h.addressable j u hj hUnfinished'
      · rw [← hName, hNone] at hLookup'
        cases hLookup'
      · rw [Option.some.inj (hr.symm.trans hr')]
  · intro i t hTask
    obtain ⟨before, after, hBlocks⟩ := blocksSent_of_reaches hReach i t hTask
    exact ⟨before, after, hBlocks.sent, hBlocks.collects, hBlocks.retires⟩
  · intro name i removed through later hName hRemove hThrough hIdle hLater
    obtain ⟨t, hTask, hState⟩ := hThrough.invariant (removing_of_remove h hName hRemove)
      fun _ _ _ hRemoving hStep => removing_of_act (act_of_step hStep) hRemoving
    have hFinished : t.finished := by
      rcases hState with hFinished | ⟨r, hr, -⟩
      · exact hFinished
      · rw [hIdle] at hr
        cases hr
    obtain ⟨t', hTask', hFinished', hSent⟩ := sent_of_finished hLater hTask hFinished
    exact ⟨t, t', hTask, hTask', hFinished, hFinished', hSent⟩

def twoHosts : Supervisor := new 3 [hostDescriptor, hostDescriptor]

def afterEvents (s : Supervisor) (events : List SupervisorEvent) : Supervisor :=
  (exec step s events).getD s

theorem reaches_afterEvents {s : Supervisor} {events : List SupervisorEvent}
    (h : (exec step s events).isSome) : Reaches step s (afterEvents s events) := by
  obtain ⟨t, ht⟩ := Option.isSome_iff_exists.mp h
  exact ⟨events, by rw [afterEvents, ht]; exact run_of_exec ht⟩

theorem a_removed_host_sends_nothing_more :
    let waiting := afterEvents twoHosts [.spawnBoot, .spawnBoot, .task 0 (.probed .ready)]
    let removed := afterEvents waiting [.command (.remove "host")]
    let through := afterEvents removed [.task 0 (.stopSeen []), .task 0 .retired, .joined]
    let later := afterEvents through [.command (.add hostDescriptor), .advance]
    ∃ t t', through.tasks[0]? = some t ∧ later.tasks[0]? = some t' ∧ t.finished ∧ t'.finished ∧
      t'.sent = t.sent := by
  intro waiting removed through later
  have hWaiting : Reaches step twoHosts waiting := reaches_afterEvents rfl
  have hThrough : Reaches step removed through := reaches_afterEvents rfl
  have hLater : Reaches step through later := reaches_afterEvents rfl
  exact (one_writer_per_name 3 [hostDescriptor, hostDescriptor] waiting hWaiting).2.2.2 "host" 0
    removed through later rfl rfl hThrough rfl hLater

end HarnessSphere.Supervisor
