import HarnessSphere.Runtime.Watcher

/-! # The runtime and its parts

What the supervisor with its tasks and the pipeline do together, either of them can do alone; and nothing
that happens in the pipeline holds up a task.
-/

namespace HarnessSphere

open Machine

def WatcherEvent.supervision : WatcherEvent → Option ProcessEvent
  | .process e => some e
  | .drain _ => none

theorem Task.sink_cases (t : Task) : t.sink = some t.desc ∨ t.sink = none := by
  unfold sink
  split
  · exact .inr rfl
  · exact .inr rfl
  · exact .inl rfl

/-- A sink stays or goes. -/
def SinkAfter (before after : Option SourceDescriptor) : Prop := after = before ∨ after = none

namespace Process

variable {p p' : Process} {e : ProcessEvent} {i : Nat} {t t' : Task}

theorem Effect.sinkAfter (h : Effect p e p' i t t') : SinkAfter t.sink t'.sink := by
  obtain hSome | hNone := t.sink_cases
  · obtain hSome' | hNone' := t'.sink_cases
    · left
      rw [hSome', hSome, h.desc]
    · exact .inr hNone'
  · exact .inr (h.sink hNone)

/-- As many tasks as before, or one more, which the supervisor spawns while it runs. -/
theorem spawned_of_act (hAct : Act p e p') :
    p'.supervisor.tasks.length = p.supervisor.tasks.length ∨
    p.stage = .running ∧ p'.stage = .running ∧ ∃ desc origin criticalThreshold,
      p'.supervisor.tasks = p.supervisor.tasks ++ [.spawn desc origin criticalThreshold] := by
  cases hAct with
  | spawnBoot s hRunning hAct =>
    cases hAct with
    | bootDuplicate desc boot hBoot hName => exact .inl rfl
    | bootSpawned desc boot hBoot hName => exact .inr ⟨hRunning, hRunning, desc, _, _, rfl⟩
  | command cmd s hRunning hAct =>
    cases hAct with
    | added desc hIdle hName => exact .inr ⟨hRunning, hRunning, desc, _, _, rfl⟩
    | removed name i hIdle hName => exact .inl (List.length_modify _ _ _)
    | addDuplicate | removeMissing => exact .inl rfl
  | joined s hRunning hAct =>
    cases hAct
    exact .inl rfl
  | timedOut r hRunning hRemoval hUnfinished | aborts name result j hStage hName =>
    exact .inl (length_abort _ _)
  | task j e t t' fatal hBusy hTask hStep => exact .inl List.length_set
  | ended j hBusy hCondemned => exact .inl (List.length_modify _ _ _)
  | drops result j hStage => exact .inl (List.length_modify _ _ _)
  | _ => exact .inl rfl

theorem sinksAfter_of_act (hAct : Act p e p')
    (hLength : p'.supervisor.tasks.length = p.supervisor.tasks.length) :
    List.Forall₂ SinkAfter (p.supervisor.tasks.map Task.sink) (p'.supervisor.tasks.map Task.sink) := by
  refine List.forall₂_iff_get.mpr ⟨by simp [hLength], fun i hOld hNew => ?_⟩
  rw [List.length_map] at hOld hNew
  obtain ⟨t', hTask', hEffect⟩ := effect_of_task hAct (List.getElem?_eq_getElem hOld)
  have hSame := Option.some.inj ((List.getElem?_eq_getElem hNew).symm.trans hTask')
  simpa [hSame] using hEffect.sinkAfter

end Process

namespace Pipeline

/-- Any number of sinks can go, one by one. -/
theorem reaches_sinksAfter (p : Pipeline) (front : List (Option SourceDescriptor))
    {before after : List (Option SourceDescriptor)} (h : List.Forall₂ SinkAfter before after) :
    Reaches step { p with sinks := front ++ before } { p with sinks := front ++ after } := by
  induction h generalizing front with
  | nil => exact .refl _
  | @cons a b before after hHead hTail ih =>
    have hRest := ih (front ++ [b])
    rw [List.append_assoc, List.append_assoc, List.singleton_append, List.singleton_append] at hRest
    obtain rfl | rfl := hHead
    · exact hRest
    · have hGone : step { p with sinks := front ++ a :: before } (.sinkGone front.length) =
          some { p with sinks := front ++ none :: before } := by
        simp [step]
      exact Reaches.trans ⟨_, .single trivial hGone⟩ hRest

end Pipeline

namespace Watcher

variable {batchSize : Nat} {w w' : Watcher} {p : Process}

theorem Coupled.reaches_hear (h : Coupled batchSize w) {e : ProcessEvent}
    (hAct : Process.Act w.process e p) :
    Reaches Pipeline.step w.pipeline (w.hear e).pipeline ∧
      (w.hear e).pipeline.sinks = w.pipeline.sinks ∧ (w.hear e).pipeline.held = w.pipeline.held := by
  obtain ⟨i, signal, t, rfl, hTask, hSink, hHear⟩ | ⟨-, hHear⟩ := h.hear hAct
  · rw [hHear]
    have hThere : w.pipeline.sinks[i]? = some (some t.desc) := by
      rw [h.sinks, List.getElem?_map, hTask, Option.map_some, hSink]
    refine ⟨⟨[.emitted i signal], .single trivial ?_⟩, ?_⟩
    · simp only [Pipeline.step, hThere]
    · obtain ⟨hHeld, hSinks, -⟩ := w.pipeline.frame_of_emit t.desc signal
      exact ⟨hSinks, hHeld⟩
  · rw [hHear]
    exact ⟨.refl _, rfl, rfl⟩

/-- A step of the process is a run of the pipeline: what is said, then what comes and goes of sinks, then
the sink of the supervisor. -/
theorem Coupled.reaches_process (h : Coupled batchSize w) {e : ProcessEvent}
    (hAct : Process.Act w.process e p) :
    Reaches Pipeline.step w.pipeline ((w.hear e).settle p).pipeline := by
  obtain ⟨hSaid, hSinks, hHeld⟩ := h.reaches_hear hAct
  rw [h.sinks] at hSinks
  rw [h.held] at hHeld
  refine hSaid.trans ?_
  have hTasks : Reaches Pipeline.step (w.hear e).pipeline
      { (w.hear e).pipeline with sinks := p.supervisor.tasks.map Task.sink } := by
    obtain hLength | ⟨hRunning, -, desc, origin, criticalThreshold, hSpawned⟩ :=
      Process.spawned_of_act hAct
    · have hGone := (w.hear e).pipeline.reaches_sinksAfter [] (Process.sinksAfter_of_act hAct hLength)
      rw [List.nil_append, List.nil_append, ← hSinks] at hGone
      exact hGone
    · refine ⟨[.added desc], .single trivial ?_⟩
      have hThere : (w.hear e).pipeline.held = true := by
        rw [hHeld, hRunning]
        rfl
      simp only [Pipeline.step, hThere, if_true, hSinks, hSpawned, List.map_append]
      rfl
  refine hTasks.trans ?_
  by_cases hDrained : p.stage.drained
  · refine ⟨[.sinkDropped], .single trivial ?_⟩
    simp only [Pipeline.step, settle, hDrained, Bool.not_true]
  · have hOpen : (w.hear e).pipeline.held = !p.stage.drained := by
      rw [hHeld]
      congr 1
      rw [Bool.not_eq_true] at hDrained
      rw [hDrained, ← Bool.not_eq_true]
      intro hOld
      rw [(Process.drained_of_act hAct hOld).1] at hDrained
      cases hDrained
    rw [settle, ← hOpen]
    exact .refl _

theorem reaches_pipeline {criticalThreshold : UInt32} {boot : List SourceDescriptor} {capacity : Nat}
    (h : Reaches step (new criticalThreshold boot capacity batchSize) w) :
    Reaches Pipeline.step (.new capacity batchSize) w.pipeline := by
  obtain ⟨events, hRun⟩ := h
  have hStep (w : Watcher) (e : WatcherEvent) (w' : Watcher) (hCoupled : Coupled batchSize w)
      (_ : Any w e) (hStep : w.step e = some w') :
      Coupled batchSize w' ∧ Reaches Pipeline.step w.pipeline w'.pipeline := by
    refine ⟨coupled_of_step hCoupled hStep, ?_⟩
    obtain ⟨e', p, -, hAct, rfl⟩ | ⟨e', p, -, hDrain, rfl⟩ := step_cases hStep
    · exact hCoupled.reaches_process hAct
    · exact ⟨[e'.event], .single trivial hDrain⟩
  exact hRun.simulate_reaches (coupled_new criticalThreshold boot capacity batchSize) hStep

theorem run_process {events : List WatcherEvent} (hRun : Run step Any w events w') :
    Run Process.step Any w.process (events.filterMap WatcherEvent.supervision) w'.process := by
  have hSome (w : Watcher) (e : WatcherEvent) (w' : Watcher) (e' : ProcessEvent) (_ : Any w e)
      (hStep : w.step e = some w') (hSupervision : e.supervision = some e') :
      Any w.process e' ∧ w.process.step e' = some w'.process := by
    cases e with
    | process e =>
      cases hSupervision
      obtain ⟨p, hProcess, rfl⟩ := Option.map_eq_some_iff.mp hStep
      exact ⟨trivial, hProcess⟩
    | drain e => cases hSupervision
  have hNone (w : Watcher) (e : WatcherEvent) (w' : Watcher) (_ : Any w e)
      (hStep : w.step e = some w') (hSupervision : e.supervision = none) : w'.process = w.process := by
    cases e with
    | process e => cases hSupervision
    | drain e =>
      obtain ⟨p, -, rfl⟩ := Option.map_eq_some_iff.mp hStep
      rfl
  exact hRun.simulate hSome hNone

/-- Nothing the process does waits for the pipeline, and none of it moves the drain. -/
theorem exists_run_of_process (w : Watcher) {more : List ProcessEvent}
    (hRun : Run Process.step Any w.process more p) :
    ∃ w', Run step Any w (more.map .process) w' ∧ w'.process = p ∧
      w'.pipeline.batches = w.pipeline.batches := by
  induction hRun with
  | nil => exact ⟨w, .nil, rfl, rfl⟩
  | @snoc q p more e _ _ hStep ih =>
    obtain ⟨w', hRun, rfl, hBatches⟩ := ih
    refine ⟨(w'.hear e).settle p, ?_, rfl, ?_⟩
    · rw [List.map_append]
      exact hRun.snoc trivial (by rw [step, hStep]; rfl)
    · rw [← hBatches]
      change (w'.hear e).pipeline.batches = _
      unfold hear
      split
      · split
        · exact (w'.pipeline.frame_of_emit _ _).2.2.2.2
        · rfl
      · rfl

/-- The runtime is its parts: of a run of the whole, the supervisor with its tasks has seen a run of its
own and the pipeline another; and wherever the whole stands, whatever the channel and the drain hold, the
tasks and the supervisor can go on as if the pipeline were not there. -/
theorem every_run_is_a_run_of_its_parts (criticalThreshold : UInt32) (boot : List SourceDescriptor)
    (capacity batchSize : Nat) (events : List WatcherEvent) (w : Watcher)
    (hRun : Run step Any (new criticalThreshold boot capacity batchSize) events w) :
    Run Process.step Any (.new criticalThreshold boot) (events.filterMap WatcherEvent.supervision)
      w.process ∧
    Reaches Pipeline.step (.new capacity batchSize) w.pipeline ∧
    ∀ more p, Run Process.step Any w.process more p →
      ∃ w', Run step Any w (more.map .process) w' ∧ w'.process = p ∧
        w'.pipeline.batches = w.pipeline.batches :=
  ⟨run_process hRun, reaches_pipeline hRun.reaches, fun _ _ hMore => w.exists_run_of_process hMore⟩

theorem a_narrow_channel_is_a_pipeline : Reaches Pipeline.step (.new 1 512)
    (after step (new 3 [hostDescriptor] 1 512) stopping).pipeline :=
  (every_run_is_a_run_of_its_parts 3 [hostDescriptor] 1 512 stopping _ (run_after rfl)).2.1

end Watcher

end HarnessSphere
