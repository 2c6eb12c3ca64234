import HarnessSphere.Runtime.Ending

/-! # Sources of one name

A workspace may go and come back, and its name with it. The tasks that have had a name speak one after
the other; only a task that was aborted in the middle of a poll may still be heard while its successor
speaks.
-/

namespace HarnessSphere

open Machine

namespace Process

variable {p p' : Process} {e : ProcessEvent} {i : Nat} {t t' : Task} {late : Process → Nat → Prop}

/-- Of two tasks of one name, the older has ended, or it is `late`. -/
def InTurn (late : Process → Nat → Prop) (p : Process) : Prop :=
  ∀ (i j : Nat) (t u : Task), i < j → p.supervisor.tasks[i]? = some t →
    p.supervisor.tasks[j]? = some u → t.desc.name = u.desc.name → t.finished ∨ late p i

/-- No removal is under way while the sources of the boot are spawned. -/
def BootFirst (p : Process) : Prop := p.supervisor.boot ≠ [] → p.supervisor.removal = none

theorem bootFirst_of_act (hAct : Act p e p') (h : BootFirst p) : BootFirst p' := by
  have hAbort {q : Process} (j : Nat) (hq : BootFirst q) : BootFirst (q.abort j) := by
    intro hBoot
    rw [removal_abort]
    apply hq
    unfold abort at hBoot
    split_ifs at hBoot <;> exact hBoot
  cases hAct with
  | spawnBoot s hRunning hAct =>
    cases hAct with
    | bootDuplicate desc boot hBoot | bootSpawned desc boot hBoot =>
      exact fun _ => h (by rw [hBoot]; exact List.cons_ne_nil _ _)
  | command cmd s hRunning hAct =>
    cases hAct with
    | removed name j hIdle hName => exact fun hBoot => absurd hIdle.1 hBoot
    | _ => exact h
  | joined s hRunning hAct =>
    cases hAct with
    | joined r hRemoval hFinished => exact fun _ => rfl
  | timedOut r hRunning hRemoval hUnfinished => exact hAbort r.task fun _ => rfl
  | aborts name result j hStage hName =>
    exact hAbort (q := { p with
      supervisor := { p.supervisor with registry := p.supervisor.registry.erase name }
      stage := .dropping result j
      shutDown := j :: p.shutDown }) j h
  | _ => exact h

/-- When a task is spawned, no other is registered under its name, and none is being removed. -/
theorem fresh_of_act (hAct : Act p e p') (hBoot : BootFirst p) {u : Task}
    (hSpawned : p'.supervisor.tasks[p.supervisor.tasks.length]? = some u) :
    p.stage = .running ∧ u.desc.name ∉ p.supervisor.registry ∧ p.supervisor.removal = none := by
  have hOther (hLength : p'.supervisor.tasks.length = p.supervisor.tasks.length) :
      p.stage = .running ∧ u.desc.name ∉ p.supervisor.registry ∧ p.supervisor.removal = none := by
    have hLt := (List.getElem?_eq_some_iff.mp hSpawned).1
    omega
  cases hAct with
  | spawnBoot s hRunning hAct =>
    cases hAct with
    | bootDuplicate desc boot hBoot' hName => exact hOther rfl
    | bootSpawned desc boot hBoot' hName =>
      obtain rfl := Option.some.inj (List.getElem?_concat_length.symm.trans hSpawned)
      exact ⟨hRunning, hName, hBoot (by rw [hBoot']; exact List.cons_ne_nil _ _)⟩
  | command cmd s hRunning hAct =>
    cases hAct with
    | added desc hIdle hName =>
      obtain rfl := Option.some.inj (List.getElem?_concat_length.symm.trans hSpawned)
      exact ⟨hRunning, hName, hIdle.2⟩
    | addDuplicate | removeMissing => exact hOther rfl
    | removed name j hIdle hName => exact hOther (List.length_modify _ _ _)
  | joined s hRunning hAct =>
    cases hAct with
    | joined r hRemoval hFinished => exact hOther rfl
  | _ => exact hOther (by simp [tell, yield, Supervisor.abort])

/-- A task whose name is free again has ended, or awaits the end of its poll. -/
theorem Kept.ended_of_free (h : Kept p) (hTask : p.supervisor.tasks[i]? = some t)
    (hName : t.desc.name ∉ p.supervisor.registry) (hRemoval : p.supervisor.removal = none) :
    t.finished ∨ i ∈ p.condemned := by
  cases hFinished : t.finished with
  | true => exact .inl rfl
  | false =>
    obtain hLookup | hCondemned | ⟨r, hSome, -⟩ := h.tasks i t hTask hFinished
    · rw [AList.lookup_eq_none.mpr hName] at hLookup
      cases hLookup
    · exact .inr hCondemned
    · rw [hRemoval] at hSome
      cases hSome

theorem inTurn_of_act (hAct : Act p e p') (hKept : Kept p) (hBoot : BootFirst p)
    (hCondemned : p.stage = .running → ∀ i ∈ p.condemned, late p i)
    (hLate : ∀ i t', late p i → p'.supervisor.tasks[i]? = some t' → t'.finished ∨ late p' i)
    (h : InTurn late p) : InTurn late p' := by
  intro i j t' u' hLt hTask' hOther' hName
  have hi := (List.getElem?_eq_some_iff.mp hOther').1
  obtain ⟨t, hTask, hEffect⟩ | ⟨rfl, -⟩ := effect_of_act hAct hTask'
  · have hOlder : t.finished ∨ late p i := by
      obtain ⟨u, hOther, hEffectOther⟩ | ⟨rfl, -⟩ := effect_of_act hAct hOther'
      · exact h i j t u hLt hTask hOther (by rw [← hEffect.desc, ← hEffectOther.desc, hName])
      · obtain ⟨hRunning, hFree, hIdle⟩ := fresh_of_act hAct hBoot hOther'
        rw [← hName, hEffect.desc] at hFree
        exact (hKept.ended_of_free hTask hFree hIdle).imp_right (hCondemned hRunning i)
    obtain hFinished | hLater := hOlder
    · exact .inl (hEffect.finished hFinished)
    · exact hLate i t' hLater hTask'
  · obtain ⟨u, hOther, -⟩ | ⟨rfl, -⟩ := effect_of_act hAct hOther'
    · have hj := (List.getElem?_eq_some_iff.mp hOther).1
      omega
    · exact absurd hLt (Nat.lt_irrefl _)

theorem condemned_of_act (hAct : Act p e p') (hCondemned : i ∈ p.condemned)
    (hTask' : p'.supervisor.tasks[i]? = some t') : t'.finished ∨ i ∈ p'.condemned := by
  cases hAct with
  | ended j hBusy hDone =>
    obtain rfl | hOther := eq_or_ne i j
    · exact .inl (finished_of_abort hTask')
    · exact .inr (List.mem_filter.mpr ⟨hCondemned, decide_eq_true hOther⟩)
  | yielded j hBusy hSpared =>
    refine .inr (List.mem_filter.mpr ⟨hCondemned, decide_eq_true ?_⟩)
    rintro rfl
    exact hSpared hCondemned
  | timedOut r hRunning hRemoval hUnfinished | aborts name result j hStage hName =>
    exact .inr (condemned_subset_abort _ _ hCondemned)
  | _ => exact .inr hCondemned

/-- In every run, of two tasks of one name the older has ended, or it was aborted in the middle of a
poll that it has not come out of. -/
theorem sources_of_a_name_take_turns (criticalThreshold : UInt32) (boot : List SourceDescriptor)
    (events : List ProcessEvent) (p : Process)
    (hRun : Run step Any (new criticalThreshold boot) events p) :
    InTurn (fun p i => i ∈ p.condemned ∧ i ∈ p.busy) p := by
  have hInvariant := hRun.invariant (I := fun p => Kept p ∧ BootFirst p ∧
    InTurn (fun p i => i ∈ p.condemned) p) ⟨kept_new _ _, fun _ => rfl, ?_⟩ ?_
  · obtain ⟨hKept, -, hTurns⟩ := hInvariant
    intro i j t u hLt hTask hOther hName
    exact (hTurns i j t u hLt hTask hOther hName).imp_right fun hLate => ⟨hLate, hKept.condemned hLate⟩
  · intro i j t u _ hTask
    simp [new, Supervisor.new] at hTask
  · rintro p e p' ⟨hKept, hBoot, hTurns⟩ - hStep
    have hAct := act_of_step hStep
    exact ⟨hKept.act hAct, bootFirst_of_act hAct hBoot,
      inTurn_of_act hAct hKept hBoot (fun _ _ => id) (fun _ _ => condemned_of_act hAct) hTurns⟩

section Sample

/-- A session is removed while it collects, and comes back before its poll is over. -/
def overtaken : List ProcessEvent :=
  [.command (.add sessionDescriptor), .polled 0, .task 0 (.probed .ready), .task 0 .ticked,
    .command (.remove sessionDescriptor.name)] ++ List.replicate retireTimeout .advance ++
    [.timedOut, .command (.add sessionDescriptor), .polled 1, .task 1 (.probed .ready)]

theorem an_overtaken_session_is_condemned : 0 ∈ (after step (new 3 []) overtaken).condemned := by
  have hTurns := sources_of_a_name_take_turns 3 [] overtaken _ (run_after rfl)
  obtain hFinished | hLate := hTurns 0 1 _ _ Nat.zero_lt_one rfl rfl rfl
  · cases hFinished
  · exact hLate.1

end Sample

/-- No removal runs out of time while its task is in the middle of a poll. -/
def patient (p : Process) : ProcessEvent → Bool
  | .timedOut => p.supervisor.removal.all (·.task ∉ p.busy)
  | _ => true

/-- Then nobody is condemned before the shutdown. -/
theorem condemned_of_patient (hAct : Act p e p') (hPatient : p.patient e)
    (h : p.stage = .running → p.condemned = []) (hRunning' : p'.stage = .running) :
    p'.condemned = [] := by
  cases hAct with
  | timedOut r hRunning hRemoval hUnfinished =>
    have hIdle : r.task ∉ p.busy := by simpa [patient, hRemoval] using hPatient
    rw [abort, if_neg hIdle]
    exact h hRunning
  | aborts name result j hStage hName =>
    rw [stage_abort] at hRunning'
    cases hRunning'
  | yielded j hBusy hSpared | ended j hBusy hCondemned =>
    have hNone := h hRunning'
    simp only [yield, hNone, List.filter_nil]
  | drops | drained | returned | fatalReceived | ctrlC => cases hRunning'
  | spawnBoot | command | joined => exact h ‹_›
  | _ => exact h hRunning'

/-- What runs in which removals are patient keep, besides that the older of two tasks has ended. -/
structure Orderly (p : Process) : Prop where
  kept : Kept p
  boot : BootFirst p
  spared : p.stage = .running → p.condemned = []
  turns : InTurn (fun _ _ => False) p

theorem orderly_new (criticalThreshold : UInt32) (boot : List SourceDescriptor) :
    Orderly (new criticalThreshold boot) where
  kept := kept_new _ _
  boot _ := rfl
  spared _ := rfl
  turns i j t u _ hTask := by simp [new, Supervisor.new] at hTask

theorem Orderly.act (h : Orderly p) (hAct : Act p e p') (hPatient : p.patient e) : Orderly p' where
  kept := h.kept.act hAct
  boot := bootFirst_of_act hAct h.boot
  spared := condemned_of_patient hAct hPatient h.spared
  turns := by
    refine inTurn_of_act hAct h.kept h.boot (fun hRunning i hCondemned => ?_)
      (fun i t' hLate => hLate.elim) h.turns
    rw [h.spared hRunning] at hCondemned
    cases hCondemned

end Process

end HarnessSphere
