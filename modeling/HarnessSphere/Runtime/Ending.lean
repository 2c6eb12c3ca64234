import HarnessSphere.Runtime.Terminal
import HarnessSphere.Runtime.Watcher

/-! # The end of the runtime

The shutdown waits for no source: whichever way the supervisor, the drain and the tasks caught in a poll
take turns, after so many steps the registry is empty, every task has ended and all the channel took is
exported, unless `run` has given up on a drain that took too long.
-/

namespace HarnessSphere

open Machine

namespace Process

variable {p p' : Process} {e : ProcessEvent} {i : Nat} {t t' : Task}

/-- Who still ends task `i`: a shutdown that finds its handle, the end of its poll, or a removal. -/
def Awaits (p : Process) (i : Nat) (name : String) : Prop :=
  p.supervisor.registry.lookup name = some i ∨ i ∈ p.condemned ∨
    ∃ r, p.supervisor.removal = some r ∧ r.task = i

theorem finished_of_abort {s : Supervisor} (hTask : (s.abort i).tasks[i]? = some t') : t'.finished := by
  rw [Supervisor.abort, List.getElem?_modify_eq] at hTask
  obtain ⟨t, -, rfl⟩ := Option.map_eq_some_iff.mp hTask
  unfold Task.abort
  split_ifs with hFinished
  · exact hFinished
  · rfl

/-- Whom an abort does not end at once, it condemns. -/
theorem condemned_of_abort (hTask : (p.abort i).supervisor.tasks[i]? = some t')
    (hUnfinished : t'.finished = false) : i ∈ (p.abort i).condemned := by
  unfold abort at hTask ⊢
  split_ifs at hTask ⊢ with hBusy
  · exact List.mem_cons_self
  · rw [finished_of_abort hTask] at hUnfinished
    cases hUnfinished

theorem condemned_subset_abort (p : Process) (i : Nat) : p.condemned ⊆ (p.abort i).condemned := by
  unfold abort
  split_ifs
  · exact List.subset_cons_self _ _
  · exact List.Subset.refl _

theorem lookup_insert_of_some {s : Supervisor} {desc : SourceDescriptor} {name : String}
    (hNew : desc.name ∉ s.registry) (hName : s.registry.lookup name = some i) (j : Nat) :
    (s.registry.insert desc.name j).lookup name = some i := by
  rw [AList.lookup_insert_ne, hName]
  rintro rfl
  rw [AList.lookup_eq_none.mpr hNew] at hName
  cases hName

theorem Awaits.act (h : p.Awaits i t'.desc.name) (hAct : Act p e p')
    (hTask : p'.supervisor.tasks[i]? = some t') (hUnfinished : t'.finished = false) :
    p'.Awaits i t'.desc.name := by
  cases hAct with
  | spawnBoot s hRunning hAct =>
    cases hAct with
    | bootDuplicate desc boot hBoot hName => exact h
    | bootSpawned desc boot hBoot hName => exact h.imp_left fun h => lookup_insert_of_some hName h _
  | command cmd s hRunning hAct =>
    cases hAct with
    | addDuplicate | removeMissing => exact h
    | added desc hIdle hName => exact h.imp_left fun h => lookup_insert_of_some hName h _
    | removed name j hIdle hName =>
      obtain hLookup | hCondemned | ⟨r, hRemoval, -⟩ := h
      · obtain hSame | hOther := eq_or_ne t'.desc.name name
        · rw [hSame, hName] at hLookup
          exact .inr (.inr ⟨_, rfl, Option.some.inj hLookup⟩)
        · exact .inl ((AList.lookup_erase_ne hOther).trans hLookup)
      · exact .inr (.inl hCondemned)
      · rw [hIdle.2] at hRemoval
        cases hRemoval
  | joined s hRunning hAct =>
    cases hAct with
    | joined r hRemoval hFinished =>
      obtain hLookup | hCondemned | ⟨r', hRemoval', rfl⟩ := h
      · exact .inl hLookup
      · exact .inr (.inl hCondemned)
      · obtain rfl := Option.some.inj (hRemoval.symm.trans hRemoval')
        dsimp only at hTask
        simp [Supervisor.finished, hTask, hUnfinished] at hFinished
  | timedOut r hRunning hRemoval hThere =>
    obtain hLookup | hCondemned | ⟨r', hRemoval', rfl⟩ := h
    · exact .inl ((congrArg (AList.lookup _) (registry_abort _ _)).trans hLookup)
    · exact .inr (.inl (condemned_subset_abort _ _ hCondemned))
    · obtain rfl := Option.some.inj (hRemoval.symm.trans hRemoval')
      exact .inr (.inl (condemned_of_abort hTask hUnfinished))
  | yielded j hBusy hSpared =>
    refine h.imp_right (Or.imp_left fun hCondemned => ?_)
    refine List.mem_filter.mpr ⟨hCondemned, decide_eq_true ?_⟩
    rintro rfl
    exact hSpared hCondemned
  | ended j hBusy hCondemned =>
    refine h.imp_right (Or.imp_left fun hOld => ?_)
    refine List.mem_filter.mpr ⟨hOld, decide_eq_true ?_⟩
    rintro rfl
    rw [finished_of_abort hTask] at hUnfinished
    cases hUnfinished
  | aborts name result j hStage hName =>
    obtain hLookup | hCondemned | ⟨r, hRemoval, hr⟩ := h
    · obtain hSame | hOther := eq_or_ne t'.desc.name name
      · rw [hSame, hName] at hLookup
        obtain rfl := Option.some.inj hLookup
        exact .inr (.inl (condemned_of_abort hTask hUnfinished))
      · left
        rw [registry_abort]
        exact (AList.lookup_erase_ne hOther).trans hLookup
    · exact .inr (.inl (condemned_subset_abort _ _ hCondemned))
    · exact .inr (.inr ⟨r, by rw [removal_abort]; exact hRemoval, hr⟩)
  | _ => exact h

/-- Every task that is there will be ended by someone. -/
structure Kept (p : Process) : Prop where
  tasks : ∀ i t, p.supervisor.tasks[i]? = some t → t.finished = false → p.Awaits i t.desc.name
  condemned : p.condemned ⊆ p.busy
  removal : p.stage ≠ .running → p.supervisor.removal = none
  drained : p.stage.drained → p.supervisor.registry.entries = []

theorem kept_new (criticalThreshold : UInt32) (boot : List SourceDescriptor) :
    Kept (new criticalThreshold boot) where
  tasks i t hTask := by simp [new, Supervisor.new] at hTask
  condemned := List.Subset.refl _
  removal hStage := absurd rfl hStage
  drained h := by cases h

theorem busy_abort (p : Process) (i : Nat) : (p.abort i).busy = p.busy := by
  unfold abort
  split_ifs <;> rfl

theorem condemned_busy_abort (h : p.condemned ⊆ p.busy) (i : Nat) :
    (p.abort i).condemned ⊆ (p.abort i).busy := by
  unfold abort
  split_ifs with hBusy
  · exact List.cons_subset.mpr ⟨hBusy, h⟩
  · exact h

theorem Kept.act (h : Kept p) (hAct : Act p e p') : Kept p' where
  tasks := by
    apply tasks_of_act (Q := fun p i t => t.finished = false → p.Awaits i t.desc.name) hAct h.tasks
    · intro i t t' hTask hTask' hEffect hOld hUnfinished
      have hBefore : t.finished = false := by
        cases hFinished : t.finished with
        | false => rfl
        | true => rw [hEffect.finished hFinished] at hUnfinished; cases hUnfinished
      apply Awaits.act ?_ hAct hTask' hUnfinished
      rw [hEffect.desc]
      exact hOld hBefore
    · intro desc origin hRegistered _
      exact .inl hRegistered
  condemned := by
    cases hAct with
    | timedOut r hRunning hRemoval hUnfinished =>
      apply condemned_busy_abort
      exact h.condemned
    | aborts name result j hStage hName =>
      apply condemned_busy_abort
      exact h.condemned
    | polled j hIdle hUnfinished => exact fun i hi => List.mem_cons_of_mem j (h.condemned hi)
    | yielded j hBusy hSpared | ended j hBusy hCondemned =>
      intro i hi
      obtain ⟨hOld, hOther⟩ := List.mem_filter.mp hi
      exact List.mem_filter.mpr ⟨h.condemned hOld, hOther⟩
    | _ => exact h.condemned
  removal := by
    intro hStage
    cases hAct with
    | spawnBoot s hRunning | command cmd s hRunning | joined s hRunning =>
      exact absurd hRunning hStage
    | timedOut r hRunning hRemoval hUnfinished =>
      rw [stage_abort] at hStage
      exact absurd hRunning hStage
    | fatalReceived f rest hListening | ctrlC hListening =>
      simp only [listening, decide_eq_true_eq] at hListening
      exact hListening.2.2
    | aborts name result j hAborting hName =>
      rw [removal_abort]
      exact h.removal (by simp [hAborting])
    | drops result j hDropping => exact h.removal (by simp [hDropping])
    | drained result hAborting hEmpty => exact h.removal (by simp [hAborting])
    | returned result hFlushing => exact h.removal (by simp [hFlushing])
    | _ => exact h.removal hStage
  drained := by
    intro hDrained
    cases hAct with
    | spawnBoot s hRunning | command cmd s hRunning | joined s hRunning =>
      rw [show p.stage = .running from hRunning] at hDrained
      cases hDrained
    | timedOut r hRunning hRemoval hUnfinished =>
      rw [stage_abort, show p.stage = .running from hRunning] at hDrained
      cases hDrained
    | aborts name result j hAborting hName =>
      rw [stage_abort] at hDrained
      cases hDrained
    | fatalReceived | ctrlC | drops => cases hDrained
    | drained result hAborting hEmpty => exact hEmpty
    | returned result hFlushing => exact h.drained (by rw [hFlushing]; rfl)
    | _ => exact h.drained hDrained

/-- Past the registry, a task that is still there is in the middle of a poll that ends it. -/
theorem Kept.caught (h : Kept p) (hDrained : p.stage.drained) {i : Nat} {t : Task}
    (hTask : p.supervisor.tasks[i]? = some t) (hUnfinished : t.finished = false) :
    i ∈ p.condemned ∧ i ∈ p.busy := by
  have hStage : p.stage ≠ .running := by
    rintro hRunning
    rw [hRunning] at hDrained
    cases hDrained
  obtain hLookup | hCondemned | ⟨r, hRemoval, -⟩ := h.tasks i t hTask hUnfinished
  · have hEmpty : p.supervisor.registry.lookup t.desc.name = none := by
      rw [AList.lookup_eq_none, AList.mem_keys, AList.keys, h.drained hDrained]
      exact List.not_mem_nil
    rw [hEmpty] at hLookup
    cases hLookup
  · exact ⟨hCondemned, h.condemned hCondemned⟩
  · rw [h.removal hStage] at hRemoval
    cases hRemoval

end Process

/-- What the supervisor has still to do for its shutdown. -/
def Process.left (p : Process) : Nat := match p.stage with
  | .running | .returned _ => 0
  | .aborting _ => 2 * p.supervisor.registry.entries.length + 2
  | .dropping _ _ => 2 * p.supervisor.registry.entries.length + 3
  | .flushing _ => 1

/-- What the drain has still to do where nothing more comes. -/
def Pipeline.left (p : Pipeline) : Nat :=
  3 * p.channel.length + 2 * p.buffer.length + match p.drain with
    | .selecting => 2
    | .exporting false => 3
    | .exporting true => 1
    | .ended => 0

namespace Watcher

def left (w : Watcher) : Nat := w.process.left + w.process.busy.length + w.pipeline.left

/-- The steps that end the runtime: those of the shutdown, those of the drain as long as `run` has not
returned, and the yields. A flush tick that finds nothing is none. -/
def closing (w : Watcher) : WatcherEvent → Bool
  | .process (.aborts _) | .process .drops | .process .drained | .process (.yielded _) => true
  | .process .returned => w.pipeline.drain = .ended
  | .drain .flushTick => !w.process.stage.closed && w.pipeline.buffer ≠ []
  | .drain _ => !w.process.stage.closed
  | _ => false

/-- After five seconds `run` returns without the drain; when they are over is left open. -/
def givesUp (w : Watcher) : WatcherEvent → Bool
  | .process .returned => w.pipeline.drain ≠ .ended
  | _ => false

def GaveUp (w : Watcher) : Prop := w.process.stage.closed ∧ w.pipeline.drain ≠ .ended

variable {batchSize : Nat} {w w' : Watcher} {e : WatcherEvent}

theorem left_lt_of_drain {p p' : Pipeline} {e : DrainEvent} (hStep : p.step e.event = some p')
    (hTick : e = .flushTick → p.buffer ≠ []) : p'.left < p.left := by
  have hAct := Pipeline.act_of_step hStep
  cases e with
  | received =>
    cases hAct with
    | received signal rest hDrain hChannel hRoom =>
      simp only [Pipeline.left, Pipeline.receive, hDrain, hChannel, List.length_cons,
        List.length_append, List.length_nil]
      omega
    | filled signal rest hDrain hChannel hFull =>
      simp only [Pipeline.left, Pipeline.exportBatch, Pipeline.receive, hDrain, hChannel,
        List.length_cons, List.length_nil]
      omega
  | receivedNone =>
    cases hAct with
    | receivedNone hDrain hChannel hClosed =>
      simp only [Pipeline.left, Pipeline.exportBatch, hDrain, List.length_nil]
      omega
  | flushTick =>
    cases hAct with
    | flushTick hDrain hBuffer => exact absurd hBuffer (hTick rfl)
    | flushed hDrain hBuffer =>
      have hPos := List.length_pos_iff.mpr hBuffer
      simp only [Pipeline.left, Pipeline.exportBatch, hDrain, List.length_nil]
      omega
  | exported result =>
    cases hAct with
    | exported _ last hDrain => cases last <;> simp [Pipeline.left, hDrain]

theorem length_erase {t : Table String Nat} {name : String} {i : Nat} (h : t.lookup name = some i) :
    (t.erase name).entries.length + 1 = t.entries.length := by
  have hMem : name ∈ t.keys := AList.mem_keys.mp (AList.lookup_isSome.mp (by rw [h]; rfl))
  have hLength (t : Table String Nat) : t.entries.length = t.keys.length := (List.length_map _).symm
  rw [hLength, hLength, AList.keys_erase, List.length_erase_of_mem hMem]
  have hPos := List.length_pos_of_mem hMem
  omega

/-- Every such step leaves less to do. -/
theorem left_lt_of_closing (hClosing : w.closing e ∨ w.givesUp e) (hStep : w.step e = some w') :
    w'.left < w.left := by
  obtain ⟨e', p, rfl, hAct, rfl⟩ | ⟨e', p, rfl, hDrain, rfl⟩ := step_cases hStep
  · have hPipeline : (w.settle p).pipeline.left = w.pipeline.left := rfl
    cases hAct with
    | yielded i hBusy hSpared | ended i hBusy hCondemned =>
      have hFewer : (w.process.busy.filter (· ≠ i)).length < w.process.busy.length :=
        List.length_filter_lt_length_iff_exists.mpr ⟨i, hBusy, by simp⟩
      change w.process.left + (w.process.busy.filter (· ≠ i)).length + w.pipeline.left < w.left
      rw [left]
      omega
    | aborts name result i hStage hName =>
      have hErase := length_erase hName
      simp only [left, Watcher.hear, settle, Process.left, Process.stage_abort, Process.registry_abort,
        Process.busy_abort, hStage, Pipeline.left]
      omega
    | drops result i hStage =>
      simp only [left, Watcher.hear, settle, Process.left, hStage, Pipeline.left]
      omega
    | drained result hStage hEmpty =>
      simp only [left, Watcher.hear, settle, Process.left, hStage, Pipeline.left, hEmpty]
      simp
    | returned result hStage =>
      simp only [left, Watcher.hear, settle, Process.left, hStage, Pipeline.left]
      omega
    | _ => simp [closing, givesUp] at hClosing
  · have hLess := left_lt_of_drain hDrain (by
      rintro rfl
      simp only [closing, givesUp, Bool.and_eq_true, decide_eq_true_eq, Bool.false_eq_true,
        or_false] at hClosing
      exact hClosing.2)
    simp only [left]
    omega

theorem kept_of_reaches {criticalThreshold : UInt32} {boot : List SourceDescriptor} {capacity : Nat}
    (h : Reaches step (new criticalThreshold boot capacity batchSize) w) : w.process.Kept := by
  apply h.invariant (I := fun w => w.process.Kept) (Process.kept_new criticalThreshold boot)
  intro a l b hKept hStep
  obtain ⟨e, p, rfl, hAct, rfl⟩ | ⟨e, p, rfl, hDrain, rfl⟩ := step_cases hStep
  · exact hKept.act hAct
  · exact hKept

/-- The shutdown is under way. -/
structure Closing (batchSize : Nat) (w : Watcher) : Prop where
  coupled : Coupled batchSize w
  kept : w.process.Kept
  stage : w.process.stage ≠ .running

theorem Closing.step (h : Closing batchSize w) (hStep : w.step e = some w') : Closing batchSize w' := by
  refine ⟨coupled_of_step h.coupled hStep, ?_, ?_⟩
  · obtain ⟨e, p, rfl, hAct, rfl⟩ | ⟨e, p, rfl, hDrain, rfl⟩ := step_cases hStep
    · exact h.kept.act hAct
    · exact h.kept
  · obtain ⟨e, p, rfl, hAct, rfl⟩ | ⟨e, p, rfl, hDrain, rfl⟩ := step_cases hStep
    · change p.stage ≠ .running
      have hStage := h.stage
      cases hAct with
      | spawnBoot s hRunning | command cmd s hRunning | joined s hRunning =>
        exact absurd hRunning hStage
      | timedOut r hRunning => exact absurd hRunning hStage
      | aborts => simp
      | fatalReceived | ctrlC | drops | drained | returned => simp
      | _ => exact hStage
    · exact h.stage

/-- The supervisor has returned, and no task is in a poll. -/
structure Done (w : Watcher) : Prop where
  returned : ∃ result, w.process.stage = .returned result
  idle : w.process.busy = []

theorem Closing.all_finished (h : Closing batchSize w) (hIdle : w.process.busy = [])
    (hDrained : w.process.stage.drained) : ∀ t ∈ w.process.supervisor.tasks, t.finished := by
  intro t ht
  obtain ⟨i, hTask⟩ := List.getElem?_of_mem ht
  cases hFinished : t.finished with
  | true => rfl
  | false =>
    have hBusy := (h.kept.caught hDrained hTask hFinished).2
    rw [hIdle] at hBusy
    cases hBusy

theorem Closing.sinksGone (h : Closing batchSize w) (hIdle : w.process.busy = [])
    (hDrained : w.process.stage.drained) : w.process.SinksGone := by
  refine ⟨hDrained, fun t ht => ?_⟩
  have hFinished := h.all_finished hIdle hDrained t ht
  unfold Task.finished at hFinished
  split at hFinished
  · simp [Task.sink, *]
  · cases hFinished

theorem Closing.exists_drain (h : Closing batchSize w) (hIdle : w.process.busy = [])
    {result : Except FatalSignal Unit} (hStage : w.process.stage = .flushing result)
    (hMore : w.pipeline.drain ≠ .ended) : ∃ e, w.closing e ∧ (w.step e).isSome := by
  have hOpen : (!w.process.stage.closed) = true := by
    rw [hStage]
    rfl
  cases hDrain : w.pipeline.drain with
  | exporting last =>
    refine ⟨.drain (.exported (.ok ())), hOpen, ?_⟩
    simp [Watcher.step, DrainEvent.event, Pipeline.step, hDrain]
  | selecting =>
    cases hChannel : w.pipeline.channel with
    | cons signal rest =>
      refine ⟨.drain .received, hOpen, ?_⟩
      simp only [Watcher.step, DrainEvent.event, Pipeline.step, hDrain, hChannel]
      split_ifs <;> rfl
    | nil =>
      have hClosed := h.coupled.isOpen_iff.mpr (h.sinksGone hIdle (by rw [hStage]; rfl))
      refine ⟨.drain .receivedNone, hOpen, ?_⟩
      simp [Watcher.step, DrainEvent.event, Pipeline.step, hDrain, hChannel, hClosed]
  | ended => exact absurd hDrain hMore

/-- Short of the end somebody can take a step, and nobody has to give up. -/
theorem Closing.exists_step (h : Closing batchSize w) (hMore : ¬ Done w) :
    ∃ e, w.closing e ∧ (w.step e).isSome := by
  cases hBusy : w.process.busy with
  | cons i busy =>
    exact ⟨.process (.yielded i), rfl, by simp [Watcher.step, Process.step, hBusy]⟩
  | nil =>
    cases hStage : w.process.stage with
    | running => exact absurd hStage h.stage
    | aborting result =>
      cases hEntries : w.process.supervisor.registry.entries with
      | nil =>
        exact ⟨.process .drained, rfl, by simp [Watcher.step, Process.step, hStage, hEntries]⟩
      | cons entry entries =>
        have hName : w.process.supervisor.registry.lookup entry.1 = some entry.2 :=
          AList.mem_lookup_iff.mpr (by rw [hEntries]; exact List.mem_cons_self)
        exact ⟨.process (.aborts entry.1), rfl, by simp [Watcher.step, Process.step, hStage, hName]⟩
    | dropping result i =>
      exact ⟨.process .drops, rfl, by simp [Watcher.step, Process.step, hStage]⟩
    | flushing result =>
      by_cases hDrain : w.pipeline.drain = .ended
      · exact ⟨.process .returned, decide_eq_true hDrain, by simp [Watcher.step, Process.step, hStage]⟩
      · exact h.exists_drain hBusy hStage hDrain
    | returned result => exact absurd ⟨⟨result, hStage⟩, hBusy⟩ hMore

/-- Without a step that gives up, `run` does not return before the drain has ended. -/
theorem gaveUp_of_closing (hClosing : w.closing e) (hStep : w.step e = some w') (h : w'.GaveUp) :
    w.GaveUp := by
  obtain ⟨hClosed, hMore⟩ := h
  obtain ⟨e', p, rfl, hAct, rfl⟩ | ⟨e', p, rfl, hDrain, rfl⟩ := step_cases hStep
  · cases hAct with
    | yielded i hBusy hSpared | ended i hBusy hCondemned => exact ⟨hClosed, hMore⟩
    | aborts name result i hStage hName =>
      simp [settle, Process.stage_abort, Stage.closed] at hClosed
    | drops result i hStage | drained result hStage hEmpty => cases hClosed
    | returned result hStage => exact absurd (of_decide_eq_true hClosing) hMore
    | _ => simp [closing] at hClosing
  · -- past the return the drain takes no step that counts
    have hOpen : (!w.process.stage.closed) = true := by
      cases e' with
      | flushTick => exact (Bool.and_eq_true_iff.mp hClosing).1
      | _ => exact hClosing
    rw [show w.process.stage.closed = true from hClosed] at hOpen
    cases hOpen

/-- However its last steps are ordered, the shutdown is over after a number of steps known beforehand.
It stops only when `run` has returned and every task has ended, and then all the channel took is
exported or `run` has given up; a run without such a step does not end so. -/
theorem every_shutdown_comes_to_its_end (criticalThreshold : UInt32) (boot : List SourceDescriptor)
    (capacity batchSize : Nat) (w : Watcher)
    (hReach : Reaches step (new criticalThreshold boot capacity batchSize) w)
    (hStage : w.process.stage ≠ .running) (events : List WatcherEvent) (w' : Watcher)
    (hRun : Run step (fun w e => w.closing e ∨ w.givesUp e) w events w') :
    events.length ≤ w.left ∧
    ((∀ e, w'.closing e → w'.step e = none) →
      (∃ result, w'.process.stage = .returned result) ∧
      (∀ t ∈ w'.process.supervisor.tasks, t.finished) ∧
      ((w'.pipeline.drain = .ended ∧ w'.pipeline.batches.flatten = w'.pipeline.accepted) ∨
        (w'.GaveUp ∧ w'.pipeline.accepted =
          w'.pipeline.batches.flatten ++ w'.pipeline.buffer ++ w'.pipeline.channel))) ∧
    (Run step (fun w e => w.closing e) w events w' → ¬ w.GaveUp → ¬ w'.GaveUp) := by
  have hClosing : Closing batchSize w := ⟨coupled_of_reaches hReach, kept_of_reaches hReach, hStage⟩
  have hBound : events.length + w'.left ≤ w.left :=
    hRun.length_add_rank_le hClosing fun a l b h hOk hStep =>
      ⟨h.step hStep, left_lt_of_closing hOk hStep⟩
  have hLast : Closing batchSize w' := hRun.invariant hClosing fun a l b h _ hStep => h.step hStep
  refine ⟨by omega, fun hStuck => ?_, fun hPatient hMore => ?_⟩
  · have hDone : Done w' := by
      by_contra hMore
      obtain ⟨e, hOk, hStep⟩ := hLast.exists_step hMore
      rw [hStuck e hOk] at hStep
      cases hStep
    obtain ⟨result, hReturned⟩ := hDone.returned
    refine ⟨hDone.returned, hLast.all_finished hDone.idle (by rw [hReturned]; rfl), ?_⟩
    by_cases hDrain : w'.pipeline.drain = .ended
    · exact .inl ⟨hDrain, hLast.coupled.all_exported hDrain⟩
    · exact .inr ⟨⟨by rw [hReturned]; rfl, hDrain⟩, hLast.coupled.conserved.signals⟩
  · exact hPatient.invariant (I := fun w => ¬ w.GaveUp) hMore fun a l b h hOk hStep hGaveUp =>
      h (gaveUp_of_closing hOk hStep hGaveUp)

def lastSteps : List WatcherEvent :=
  [.process (.aborts "host"), .drain .flushTick, .process .drops, .process .drained,
    .drain (.exported (.ok ())), .process (.yielded 0), .drain .receivedNone,
    .drain (.exported (.error (.failed "unreachable"))), .process .returned]

theorem a_collecting_host_is_shut_down :
    let w := after step (new 3 [hostDescriptor] 1 512) (collecting ++ [.process .ctrlC])
    let w' := after step w lastSteps
    lastSteps.length ≤ w.left ∧ ¬ w'.GaveUp := by
  intro w w'
  have hRun : Run step (fun w e => w.closing e) w lastSteps w' := run_after_guarded rfl
  obtain ⟨hLength, -, hPatient⟩ := every_shutdown_comes_to_its_end 3 [hostDescriptor] 1 512 w
    (run_after rfl).reaches (by decide) lastSteps w' (hRun.mono fun _ _ => .inl)
  exact ⟨hLength, hPatient hRun fun h => by cases h.1⟩

end Watcher

end HarnessSphere
