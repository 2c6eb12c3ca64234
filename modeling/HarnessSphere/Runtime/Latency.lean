import Mathlib.Data.List.Infix
import HarnessSphere.Runtime.Pipeline

/-! # How long a signal waits

A signal that the channel has taken waits for those before it and for one tick of the flush timer, and
for nothing else: neither for a full batch nor for what comes after it.
-/

namespace HarnessSphere

open Machine

def PipelineEvent.receives : PipelineEvent → Bool
  | .received => true
  | _ => false

namespace Pipeline

variable {batchSize : Nat} {p p' q : Pipeline} {e : PipelineEvent} {events : List PipelineEvent}

/-- The signals that the drain has received. -/
def taken (p : Pipeline) : Nat := p.batches.flatten.length + p.buffer.length

theorem taken_exportBatch (p : Pipeline) (last : Bool) : (p.exportBatch last).taken = p.taken := by
  simp [taken, exportBatch]

theorem taken_emit (p : Pipeline) (source : SourceDescriptor) (signal : Signal) :
    (p.emit source signal).taken = p.taken := by
  obtain ⟨-, -, -, hBuffer, hBatches⟩ := p.frame_of_emit source signal
  rw [taken, hBuffer, hBatches, taken]

theorem accepted_emit (p : Pipeline) (source : SourceDescriptor) (signal : Signal) :
    p.accepted <+: (p.emit source signal).accepted := by
  unfold Pipeline.emit accepted
  split_ifs
  · simp
  · simp

/-- A step receives one signal or none; what was accepted stays, and so does what was exported. -/
structure Advances (e : PipelineEvent) (p p' : Pipeline) : Prop where
  taken : p'.taken = p.taken + if e.receives then 1 else 0
  accepted : p.accepted <+: p'.accepted
  batches : p.batches <+: p'.batches

theorem taken_receive (p : Pipeline) (signal : Signal) (rest : List Signal) :
    (p.receive signal rest).taken = p.taken + 1 := by
  simp [taken, receive, Nat.add_assoc]

theorem advances_of_step (hStep : p.step e = some p') : Advances e p p' := by
  cases act_of_step hStep with
  | emitted i signal source hSource =>
    obtain ⟨-, -, -, -, hBatches⟩ := p.frame_of_emit source signal
    exact ⟨taken_emit p source signal, accepted_emit p source signal, by rw [hBatches]⟩
  | received signal rest hDrain hChannel hRoom =>
    exact ⟨taken_receive p signal rest, List.prefix_refl _, List.prefix_refl _⟩
  | filled signal rest hDrain hChannel hFull =>
    have hTaken := (taken_exportBatch (p.receive signal rest) false).trans (taken_receive p signal rest)
    exact ⟨hTaken, List.prefix_refl _, List.prefix_append _ _⟩
  | receivedNone | flushed =>
    exact ⟨taken_exportBatch p _, List.prefix_refl _, List.prefix_append _ _⟩
  | _ => exact ⟨rfl, List.prefix_refl _, List.prefix_refl _⟩

/-- Over a run the drain receives as many signals as there are steps that receive one. -/
theorem advances_of_run (hRun : Run step Any p events q) :
    q.taken = p.taken + events.countP PipelineEvent.receives ∧ p.accepted <+: q.accepted ∧
      p.batches <+: q.batches := by
  refine hRun.history (I := fun events q =>
    q.taken = p.taken + events.countP PipelineEvent.receives ∧ p.accepted <+: q.accepted ∧
      p.batches <+: q.batches) ⟨rfl, List.prefix_refl _, List.prefix_refl _⟩ ?_
  rintro events a e b ⟨hTaken, hAccepted, hBatches⟩ - hStep
  have hNext := advances_of_step hStep
  refine ⟨?_, hAccepted.trans hNext.accepted, hBatches.trans hNext.batches⟩
  rw [hNext.taken, hTaken, List.countP_append, List.countP_singleton, Nat.add_assoc]

theorem flushed_of_step (hStep : p.step .flushTick = some p') :
    p'.batches.flatten.length = p.taken := by
  cases act_of_step hStep with
  | flushTick hDrain hBuffer => simp [taken, hBuffer]
  | flushed hDrain hBuffer => simp [taken, exportBatch]

/-- Whatever has been accepted is exported by the first tick of the flush timer after the drain has
received as many signals as stood in the channel then, however small the traffic and however large the
batches. -/
theorem accepted_is_exported_by_a_flush (capacity batchSize : Nat)
    (before events after : List PipelineEvent) (p q : Pipeline)
    (hBefore : Run step Any (new capacity batchSize) before p)
    (hRun : Run step Any p (events ++ [.flushTick] ++ after) q)
    (hReceived : p.channel.length ≤ events.countP PipelineEvent.receives) :
    p.accepted <+: q.batches.flatten := by
  obtain ⟨v, hUpTo, hAfter⟩ := run_append_iff.mp hRun
  obtain ⟨u, hEvents, -, hFlush⟩ := run_snoc_iff.mp hUpTo
  have hConserved {r : Pipeline} {es : List PipelineEvent} (h : Run step Any p es r) :
      r.accepted = r.batches.flatten ++ r.buffer ++ r.channel :=
    (conserved_of_reaches (hBefore.append h).reaches).signals
  obtain ⟨hTaken, -, -⟩ := advances_of_run hEvents
  obtain ⟨-, hAccepted, -⟩ := advances_of_run hUpTo
  obtain ⟨-, -, hBatches⟩ := advances_of_run hAfter
  have hExported : v.batches.flatten <+: v.accepted := by
    rw [hConserved hUpTo, List.append_assoc]
    exact List.prefix_append _ _
  have hLength : p.accepted.length ≤ v.batches.flatten.length := by
    have hHere := congrArg List.length (hConserved .nil)
    simp only [List.length_append] at hHere
    rw [flushed_of_step hFlush, hTaken, hHere, taken]
    omega
  have hInTime := List.prefix_of_prefix_length_le hAccepted hExported hLength
  exact hInTime.trans (List.IsPrefix.flatten hBatches)

/-- Two signals for batches of 512: the timer exports them, and a third waits for its next tick. -/
theorem a_slow_pipeline_exports_in_time :
    let p := after step (new 8 512) [.added hostDescriptor, .emitted 0 uptime, .emitted 0 uptime]
    p.accepted <+:
      (after step p [.emitted 0 uptime, .received, .received, .flushTick]).batches.flatten :=
  accepted_is_exported_by_a_flush 8 512 [.added hostDescriptor, .emitted 0 uptime, .emitted 0 uptime]
    [.emitted 0 uptime, .received, .received] [] _ _ (run_after rfl) (run_after rfl) (by decide)

end Pipeline

end HarnessSphere
