import HarnessSphere.Library.Progress
import HarnessSphere.Runtime.Deaths
import HarnessSphere.Runtime.Pipeline

/-! # The runtime as a whole

The supervisor with its tasks, the channel and the drain, as one machine. A task has its sink until
its future is dropped, the supervisor has one until the registry is drained, and the drain takes out
of the channel at its own pace.
-/

namespace HarnessSphere

open Machine

/-- A panic unwinds the task before it is reported. -/
def Task.sink (t : Task) : Option SourceDescriptor := match t.point with
  | .ended _ | .reporting _ .panicked => none
  | _ => some t.desc

inductive DrainEvent where
  | received
  | receivedNone
  | flushTick
  | exported (result : Except ExportError Unit)

def DrainEvent.event : DrainEvent → PipelineEvent
  | received => .received
  | receivedNone => .receivedNone
  | flushTick => .flushTick
  | exported result => .exported result

inductive WatcherEvent where
  | process (e : ProcessEvent)
  | drain (e : DrainEvent)

/-- `writers` has the task of each emission. -/
structure Watcher where
  process : Process
  pipeline : Pipeline
  writers : List Nat

namespace Watcher

def new (criticalThreshold : UInt32) (boot : List SourceDescriptor) (capacity batchSize : Nat) :
    Watcher :=
  ⟨.new criticalThreshold boot, .new capacity batchSize, []⟩

/-- What a task says goes through its sink. -/
def hear (w : Watcher) : ProcessEvent → Watcher
  | .task i (.emitted signal) =>
    match w.pipeline.sinks[i]? with
    | some (some source) =>
      { w with pipeline := w.pipeline.emit source signal, writers := w.writers ++ [i] }
    | _ => w
  | _ => w

/-- The sinks are those of the tasks, and the supervisor's own. -/
def settle (w : Watcher) (p : Process) : Watcher :=
  { w with
    process := p
    pipeline :=
      { w.pipeline with
        held := !p.stage.drained
        sinks := p.supervisor.tasks.map Task.sink } }

def step (w : Watcher) : WatcherEvent → Option Watcher
  | .process e => (w.process.step e).map fun p => (w.hear e).settle p
  | .drain e => (w.pipeline.step e.event).map fun p => { w with pipeline := p }

/-- What the source of task `i` emitted. -/
def emissionsOf (w : Watcher) (i : Nat) : List Emission :=
  ((w.pipeline.emissions.zip w.writers).filter fun x => x.2 = i).map Prod.fst

end Watcher

namespace Process

variable {p p' : Process} {e : ProcessEvent} {i : Nat} {t t' : Task}

theorem drained_of_act (hAct : Act p e p') (h : p.stage.drained) :
    p'.stage.drained ∧ p'.supervisor.tasks.length = p.supervisor.tasks.length := by
  have hRunning (hStage : p.stage = .running) : False := by
    rw [hStage] at h
    cases h
  cases hAct with
  | spawnBoot s hStage | command cmd s hStage | joined s hStage | timedOut r hStage =>
    exact (hRunning hStage).elim
  | fatalReceived f rest hListening | ctrlC hListening =>
    simp only [listening, decide_eq_true_eq] at hListening
    exact (hRunning hListening.1).elim
  | aborts name result i hStage | drops result i hStage | drained result hStage =>
    rw [hStage] at h
    cases h
  | returned result hStage => exact ⟨rfl, rfl⟩
  | _ => simp_all [tell, yield, Supervisor.abort]

/-- The supervisor has dropped its sink, and so has every task. -/
structure SinksGone (p : Process) : Prop where
  drained : p.stage.drained
  tasks : ∀ t ∈ p.supervisor.tasks, t.sink = none

theorem Effect.sink (h : Effect p e p' i t t') (hNone : t.sink = none) : t'.sink = none := by
  cases h with
  | aborted hUnfinished hWhy => rfl
  | moved e' _ fatal hEvent hAct hSent =>
    unfold Task.sink at hNone
    split at hNone
    · have hUnfinished := Task.unfinished_of_act hAct
      simp [Task.finished, *] at hUnfinished
    · cases hAct <;> simp_all [Task.sink, Resume.point]
    · cases hNone
  | _ => exact hNone

/-- Once all sinks are gone, there are none for ever. -/
theorem SinksGone.act (h : p.SinksGone) (hAct : Act p e p') : p'.SinksGone := by
  obtain ⟨hDrained, hLength⟩ := drained_of_act hAct h.drained
  refine ⟨hDrained, fun t' ht' => ?_⟩
  obtain ⟨i, hTask'⟩ := List.getElem?_of_mem ht'
  obtain ⟨t, hTask, hEffect⟩ | ⟨rfl, -⟩ := effect_of_act hAct hTask'
  · exact hEffect.sink (h.tasks t (List.mem_of_getElem? hTask))
  · have hLt := (List.getElem?_eq_some_iff.mp hTask').1
    omega

end Process

namespace Task

variable {now : Nat} {room : Bool} {t t' : Task} {e : TaskEvent} {fatal : Option FatalSignal}

theorem speaks_of_act {signal : Signal} (hAct : Act now room t (.emitted signal) t' fatal) :
    t.sink = some t.desc ∧ ∃ phase, t'.sent = t.sent ++ [(phase, stampLayer t.desc.layer signal)] := by
  cases hAct with
  | emitted _ hPoint => exact ⟨by simp [sink, hPoint], .collect, rfl⟩
  | terminal terminal _ rest hPoint => exact ⟨by simp [sink, hPoint], .retire, rfl⟩

theorem silent_of_act (hAct : Act now room t e t' fatal) (hSilent : ∀ signal, e ≠ .emitted signal) :
    t'.sent = t.sent := by
  cases hAct with
  | probed r hPoint => exact (t.probed_spec now r).2.1
  | probePanicked hPoint | retirePanicked _ _ hPoint => exact t.panic_spec.2.2
  | ticked hPoint hDue => exact (t.ticked_spec now).2.1
  | emitted signal hPoint => exact absurd rfl (hSilent signal)
  | terminal terminal signal rest hPoint => exact absurd rfl (hSilent signal)
  | collected outcome hPoint => exact (t.collected_spec outcome).2.1
  | _ => rfl

end Task

theorem Process.Effect.silent {p p' : Process} {e : ProcessEvent} {i : Nat} {t t' : Task}
    (h : Process.Effect p e p' i t t') (hSilent : ∀ signal, e ≠ .task i (.emitted signal)) :
    t'.sent = t.sent := by
  cases h with
  | moved e' _ fatal hEvent hAct hSent =>
    apply Task.silent_of_act hAct
    rintro signal rfl
    exact hSilent signal hEvent
  | _ => rfl

/-- As the signal enters the channel, if it does. -/
def Emission.stamped (e : Emission) : Signal := stampLayer e.source.layer e.signal

namespace Watcher

/-- The emissions of a task are what it says it has sent, each under its own descriptor. -/
structure Told (w : Watcher) (i : Nat) (t : Task) : Prop where
  source : ∀ e ∈ w.emissionsOf i, e.source = t.desc
  sent : (w.emissionsOf i).map Emission.stamped = t.sent.map Prod.snd

/-- The tasks and the pipeline speak of the same sinks and of the same emissions. -/
structure Coupled (batchSize : Nat) (w : Watcher) : Prop where
  conserved : w.pipeline.Conserved batchSize
  held : w.pipeline.held = !w.process.stage.drained
  sinks : w.pipeline.sinks = w.process.supervisor.tasks.map Task.sink
  writers : w.writers.length = w.pipeline.emissions.length
  known : ∀ i ∈ w.writers, i < w.process.supervisor.tasks.length
  told : ∀ i t, w.process.supervisor.tasks[i]? = some t → w.Told i t

variable {batchSize : Nat} {w w' : Watcher} {p : Process}

theorem coupled_new (criticalThreshold : UInt32) (boot : List SourceDescriptor)
    (capacity batchSize : Nat) : Coupled batchSize (new criticalThreshold boot capacity batchSize) where
  conserved := Pipeline.conserved_new capacity batchSize
  held := rfl
  sinks := rfl
  writers := rfl
  known i hi := by cases hi
  told i t hTask := by simp [new, Process.new, Supervisor.new] at hTask

/-- What hearing a step comes to: the speaker had its sink, or nothing was said. -/
theorem Coupled.hear (h : Coupled batchSize w) {e : ProcessEvent} (hAct : Process.Act w.process e p) :
    (∃ i signal t, e = .task i (.emitted signal) ∧ w.process.supervisor.tasks[i]? = some t ∧
      t.sink = some t.desc ∧
      w.hear e =
        { w with pipeline := w.pipeline.emit t.desc signal, writers := w.writers ++ [i] }) ∨
    (∀ i signal, e ≠ .task i (.emitted signal)) ∧ w.hear e = w := by
  by_cases hSpoken : ∃ i signal, e = .task i (.emitted signal)
  · left
    obtain ⟨i, signal, rfl⟩ := hSpoken
    cases hAct with
    | task _ _ t t' fatal hBusy hTask hStep =>
      have hSink := (Task.speaks_of_act (Task.act_of_step hStep)).1
      refine ⟨i, signal, t, rfl, hTask, hSink, ?_⟩
      have hThere : w.pipeline.sinks[i]? = some (some t.desc) := by
        rw [h.sinks, List.getElem?_map, hTask, Option.map_some, hSink]
      simp only [Watcher.hear, hThere]
  · right
    refine ⟨fun i signal hEvent => hSpoken ⟨i, signal, hEvent⟩, ?_⟩
    unfold Watcher.hear
    split
    · exact absurd ⟨_, _, rfl⟩ hSpoken
    · rfl

theorem emissions_emit (p : Pipeline) (source : SourceDescriptor) (signal : Signal) :
    ∃ accepted, (p.emit source signal).emissions = p.emissions ++ [⟨source, signal, accepted⟩] := by
  unfold Pipeline.emit
  split_ifs
  · exact ⟨true, rfl⟩
  · exact ⟨false, rfl⟩

theorem Coupled.emissionsOf_emit (h : Coupled batchSize w) (source : SourceDescriptor)
    (signal : Signal) (i j : Nat) : ∃ accepted,
      emissionsOf { w with pipeline := w.pipeline.emit source signal, writers := w.writers ++ [i] } j =
        if i = j then w.emissionsOf j ++ [⟨source, signal, accepted⟩] else w.emissionsOf j := by
  obtain ⟨accepted, hEmissions⟩ := emissions_emit w.pipeline source signal
  refine ⟨accepted, ?_⟩
  rw [emissionsOf, hEmissions, List.zip_append h.writers.symm, List.filter_append, List.map_append]
  split_ifs with hij
  · simp [hij, emissionsOf]
  · simp [hij, emissionsOf]

theorem Coupled.hear_conserved (h : Coupled batchSize w) {e : ProcessEvent}
    (hAct : Process.Act w.process e p) :
    (w.hear e).pipeline.Conserved batchSize ∧ (w.hear e).pipeline.isOpen = w.pipeline.isOpen := by
  obtain ⟨i, signal, t, rfl, hTask, hSink, hHear⟩ | ⟨-, hHear⟩ := h.hear hAct
  · rw [hHear]
    have hSame : (w.pipeline.emit t.desc signal).isOpen = w.pipeline.isOpen := by
      obtain ⟨hHeld, hSinks, -⟩ := w.pipeline.frame_of_emit t.desc signal
      rw [Pipeline.isOpen, hHeld, hSinks, Pipeline.isOpen]
    refine ⟨h.conserved.emit t.desc signal ?_, hSame⟩
    have hAny : w.pipeline.sinks.any Option.isSome := by
      rw [h.sinks]
      refine List.any_eq_true.mpr ⟨t.sink, List.mem_map_of_mem (List.mem_of_getElem? hTask), ?_⟩
      rw [hSink]
      rfl
    rw [Pipeline.isOpen, hAny, Bool.or_true]
  · rw [hHear]
    exact ⟨h.conserved, rfl⟩

theorem isOpen_settle (p : Process) : (w.settle p).pipeline.isOpen = false ↔ p.SinksGone := by
  simp only [settle, Pipeline.isOpen, Bool.or_eq_false_iff, Bool.not_eq_false', List.any_eq_false,
    List.mem_map, forall_exists_index, and_imp, forall_apply_eq_imp_iff₂, Option.not_isSome_iff_eq_none]
  exact ⟨fun h => ⟨h.1, h.2⟩, fun h => ⟨h.drained, h.tasks⟩⟩

theorem Coupled.isOpen_iff (h : Coupled batchSize w) :
    w.pipeline.isOpen = false ↔ w.process.SinksGone := by
  rw [← isOpen_settle (w := w), settle, Pipeline.isOpen, Pipeline.isOpen, h.held, h.sinks]

theorem emissionsOf_of_not_writer {i : Nat} (h : i ∉ w.writers) : w.emissionsOf i = [] := by
  rw [emissionsOf, List.map_eq_nil_iff, List.filter_eq_nil_iff]
  rintro ⟨e, j⟩ hPair hj
  exact h (of_decide_eq_true hj ▸ (List.of_mem_zip hPair).2)

theorem Coupled.told_settle (h : Coupled batchSize w) {e : ProcessEvent}
    (hAct : Process.Act w.process e p) (i : Nat) (t : Task)
    (hTask : p.supervisor.tasks[i]? = some t) : ((w.hear e).settle p).Told i t := by
  suffices hHeard : (w.hear e).Told i t from ⟨hHeard.source, hHeard.sent⟩
  obtain ⟨j, signal, u, rfl, hSpeaker, -, hHear⟩ | ⟨hSilent, hHear⟩ := h.hear hAct
  · rw [hHear]
    obtain ⟨accepted, hOf⟩ := h.emissionsOf_emit u.desc signal j i
    cases hAct with
    | task _ _ u' t' fatal hBusy hTask' hStep =>
      obtain rfl := Option.some.inj (hSpeaker.symm.trans hTask')
      have hTaskAct := Task.act_of_step hStep
      obtain rfl | hij := eq_or_ne j i
      · rw [if_pos rfl] at hOf
        have hLt := (List.getElem?_eq_some_iff.mp hTask').1
        obtain rfl := Option.some.inj ((List.getElem?_set_self hLt).symm.trans hTask)
        have hOld := h.told j u hSpeaker
        obtain ⟨phase, hSent⟩ := (Task.speaks_of_act hTaskAct).2
        have hDesc := (Task.spec_of_act hTaskAct).1.desc
        constructor
        · intro x hx
          rw [hOf] at hx
          obtain hx | hx := List.mem_append.mp hx
          · rw [hDesc, hOld.source x hx]
          · rw [List.mem_singleton.mp hx, hDesc]
        · rw [hOf, List.map_append, hOld.sent, hSent, List.map_append]
          rfl
      · rw [if_neg hij] at hOf
        have hOld := h.told i t ((List.getElem?_set_ne hij).symm.trans hTask)
        exact ⟨by rw [hOf]; exact hOld.source, by rw [hOf]; exact hOld.sent⟩
  · rw [hHear]
    apply Process.tasks_of_act (Q := fun _ i t => w.Told i t) hAct h.told ?_ ?_ i t hTask
    · intro i t t' _ _ hEffect hOld
      have hSent := hEffect.silent (hSilent i)
      exact ⟨by rw [hEffect.desc]; exact hOld.source, by rw [hSent]; exact hOld.sent⟩
    · intro desc origin _
      have hNone : w.emissionsOf w.process.supervisor.tasks.length = [] :=
        emissionsOf_of_not_writer fun hMem => Nat.lt_irrefl _ (h.known _ hMem)
      exact ⟨by rw [hNone]; simp, by rw [hNone]; rfl⟩

theorem Coupled.process (h : Coupled batchSize w) {e : ProcessEvent}
    (hAct : Process.Act w.process e p) : Coupled batchSize ((w.hear e).settle p) where
  conserved := by
    obtain ⟨hConserved, hSame⟩ := h.hear_conserved hAct
    apply hConserved.lessOpen
    intro hClosed
    rw [hSame] at hClosed
    exact (isOpen_settle (w := w) p).mpr ((h.isOpen_iff.mp hClosed).act hAct)
  held := rfl
  sinks := rfl
  writers := by
    change (w.hear e).writers.length = (w.hear e).pipeline.emissions.length
    obtain ⟨i, signal, t, rfl, hTask, hSink, hHear⟩ | ⟨-, hHear⟩ := h.hear hAct
    · obtain ⟨accepted, hEmissions⟩ := emissions_emit w.pipeline t.desc signal
      rw [hHear]
      simp [hEmissions, h.writers]
    · rw [hHear, h.writers]
  known := by
    change ∀ i ∈ (w.hear e).writers, i < p.supervisor.tasks.length
    have hGrows := Process.length_le_of_act hAct
    intro i hi
    obtain ⟨j, signal, t, rfl, hTask, hSink, hHear⟩ | ⟨-, hHear⟩ := h.hear hAct
    · rw [hHear] at hi
      obtain hOld | hNew := List.mem_append.mp hi
      · exact (h.known i hOld).trans_le hGrows
      · rw [List.mem_singleton.mp hNew]
        exact (List.getElem?_eq_some_iff.mp hTask).1.trans_le hGrows
    · rw [hHear] at hi
      exact (h.known i hi).trans_le hGrows
  told := h.told_settle hAct

theorem frame_of_drain {p p' : Pipeline} {e : DrainEvent} (hStep : p.step e.event = some p') :
    p'.held = p.held ∧ p'.sinks = p.sinks ∧ p'.emissions = p.emissions := by
  have hAct := Pipeline.act_of_step hStep
  cases e with
  | received | receivedNone | flushTick | exported => cases hAct <;> exact ⟨rfl, rfl, rfl⟩

theorem Coupled.drain (h : Coupled batchSize w) {e : DrainEvent} {p' : Pipeline}
    (hStep : w.pipeline.step e.event = some p') : Coupled batchSize { w with pipeline := p' } := by
  obtain ⟨hHeld, hSinks, hEmissions⟩ := frame_of_drain hStep
  refine ⟨Pipeline.conserved_of_step h.conserved hStep, hHeld.trans h.held, hSinks.trans h.sinks,
    ?_, h.known, ?_⟩
  · rw [h.writers, ← hEmissions]
  · intro i t hTask
    have hOf : emissionsOf { w with pipeline := p' } i = w.emissionsOf i := by
      rw [emissionsOf, hEmissions]
      rfl
    obtain ⟨hSource, hSent⟩ := h.told i t hTask
    exact ⟨by rw [hOf]; exact hSource, by rw [hOf]; exact hSent⟩

/-- What a step of the runtime can be. -/
theorem step_cases {e : WatcherEvent} (h : w.step e = some w') :
    (∃ e' p, e = .process e' ∧ Process.Act w.process e' p ∧ w' = (w.hear e').settle p) ∨
    ∃ e' p, e = .drain e' ∧ w.pipeline.step e'.event = some p ∧ w' = { w with pipeline := p } := by
  cases e with
  | process e' =>
    obtain ⟨p, hStep, rfl⟩ := Option.map_eq_some_iff.mp h
    exact .inl ⟨e', p, rfl, Process.act_of_step hStep, rfl⟩
  | drain e' =>
    obtain ⟨p, hStep, rfl⟩ := Option.map_eq_some_iff.mp h
    exact .inr ⟨e', p, rfl, hStep, rfl⟩

theorem coupled_of_step {e : WatcherEvent} (h : Coupled batchSize w) (hStep : w.step e = some w') :
    Coupled batchSize w' := by
  obtain ⟨e', p, -, hAct, rfl⟩ | ⟨e', p, -, hDrain, rfl⟩ := step_cases hStep
  · exact h.process hAct
  · exact h.drain hDrain

theorem coupled_of_reaches {criticalThreshold : UInt32} {boot : List SourceDescriptor}
    {capacity : Nat} (h : Reaches step (new criticalThreshold boot capacity batchSize) w) :
    Coupled batchSize w :=
  h.invariant (coupled_new criticalThreshold boot capacity batchSize)
    fun _ _ _ hOld hStep => coupled_of_step hOld hStep

/-- Of what a task sent, the channel took a part, in the order of the task. -/
theorem Coupled.sublist_accepted (h : Coupled batchSize w) (i : Nat) :
    (((w.emissionsOf i).filter Emission.accepted).map Emission.stamped).Sublist w.pipeline.accepted := by
  apply List.Sublist.map
  apply List.Sublist.filter
  have hFirst := List.map_fst_zip h.writers.ge
  rw [emissionsOf]
  exact (List.filter_sublist.map _).trans (by rw [hFirst])

/-- However the tasks, the supervisor and the drain take turns: what a task sent is what its sink was
given; each of these signals was counted as dropped, or stands in a batch, in the buffer or in the
channel, in the order in which the task sent them. -/
theorem every_signal_is_accounted_for (criticalThreshold : UInt32) (boot : List SourceDescriptor)
    (capacity batchSize : Nat) (w : Watcher)
    (hReach : Reaches step (new criticalThreshold boot capacity batchSize) w) :
    w.pipeline.dropped = UInt64.ofNat w.pipeline.rejected.length ∧
    ∀ i t, w.process.supervisor.tasks[i]? = some t →
      (w.emissionsOf i).map Emission.stamped = t.sent.map Prod.snd ∧
      (((w.emissionsOf i).filter Emission.accepted).map Emission.stamped).Sublist
        (w.pipeline.batches.flatten ++ w.pipeline.buffer ++ w.pipeline.channel) := by
  have h := coupled_of_reaches hReach
  refine ⟨h.conserved.dropped, fun i t hTask => ⟨(h.told i t hTask).sent, ?_⟩⟩
  rw [← h.conserved.signals]
  exact h.sublist_accepted i

theorem Coupled.sinksGone (h : Coupled batchSize w) (hEnded : w.pipeline.drain = .ended) :
    w.process.SinksGone :=
  h.isOpen_iff.mp (h.conserved.closed (.inr hEnded)).2

theorem Coupled.all_exported (h : Coupled batchSize w) (hEnded : w.pipeline.drain = .ended) :
    w.pipeline.batches.flatten = w.pipeline.accepted := by
  have hBuffer := h.conserved.drained (by simp [hEnded])
  rw [h.conserved.signals, hBuffer, (h.conserved.closed (.inr hEnded)).1]
  simp

theorem silent_of_ended (h : Coupled batchSize w) (hEnded : w.pipeline.drain = .ended)
    {e : WatcherEvent} (hStep : w.step e = some w') :
    w'.pipeline.drain = .ended ∧ w'.pipeline.emissions = w.pipeline.emissions ∧
      w'.pipeline.batches = w.pipeline.batches := by
  obtain ⟨e', p, -, hAct, rfl⟩ | ⟨e', p, -, hDrain, rfl⟩ := step_cases hStep
  · obtain ⟨i, signal, t, rfl, hTask, hSink, -⟩ | ⟨-, hHear⟩ := h.hear hAct
    · rw [(h.sinksGone hEnded).tasks t (List.mem_of_getElem? hTask)] at hSink
      cases hSink
    · rw [hHear]
      exact ⟨hEnded, rfl, rfl⟩
  · cases e' <;> simp [DrainEvent.event, Pipeline.step, hEnded] at hDrain

def collecting : List WatcherEvent :=
  [.process .spawnBoot, .process (.polled 0), .process (.task 0 (.probed .ready)),
    .process (.task 0 .ticked), .process (.task 0 (.emitted Pipeline.uptime)),
    .process (.task 0 (.emitted Pipeline.uptime)), .drain .received]

/-- A channel of one takes the first of two signals. -/
theorem a_narrow_channel_takes_one :
    let w := after step (new 3 [hostDescriptor] 1 512) collecting
    w.pipeline.dropped = UInt64.ofNat w.pipeline.rejected.length ∧
    ∀ i t, w.process.supervisor.tasks[i]? = some t →
      (w.emissionsOf i).map Emission.stamped = t.sent.map Prod.snd ∧
      (((w.emissionsOf i).filter Emission.accepted).map Emission.stamped).Sublist
        (w.pipeline.batches.flatten ++ w.pipeline.buffer ++ w.pipeline.channel) :=
  every_signal_is_accounted_for 3 [hostDescriptor] 1 512 _ (run_after rfl).reaches

/-- Where the drain has ended, the supervisor is through with its tasks, each of them has let go of its
sink, every signal the channel took is in a batch, and whatever happens later nothing is said. -/
theorem nothing_follows_the_last_batch (criticalThreshold : UInt32) (boot : List SourceDescriptor)
    (capacity batchSize : Nat) (w : Watcher)
    (hReach : Reaches step (new criticalThreshold boot capacity batchSize) w)
    (hEnded : w.pipeline.drain = .ended) :
    w.process.SinksGone ∧ w.pipeline.batches.flatten = w.pipeline.accepted ∧
    ∀ w', Reaches step w w' →
      w'.pipeline.emissions = w.pipeline.emissions ∧ w'.pipeline.batches = w.pipeline.batches := by
  have h := coupled_of_reaches hReach
  refine ⟨h.sinksGone hEnded, h.all_exported hEnded, fun w' hLater => ?_⟩
  have hKept : Coupled batchSize w' ∧ w'.pipeline.drain = .ended ∧
      w'.pipeline.emissions = w.pipeline.emissions ∧ w'.pipeline.batches = w.pipeline.batches := by
    apply hLater.invariant (I := fun w' => Coupled batchSize w' ∧ w'.pipeline.drain = .ended ∧
      w'.pipeline.emissions = w.pipeline.emissions ∧ w'.pipeline.batches = w.pipeline.batches)
    · exact ⟨h, hEnded, rfl, rfl⟩
    · rintro a e b ⟨hCoupled, hDone, hEmissions, hBatches⟩ hStep
      obtain ⟨hDone', hEmissions', hBatches'⟩ := silent_of_ended hCoupled hDone hStep
      exact ⟨coupled_of_step hCoupled hStep, hDone', hEmissions'.trans hEmissions,
        hBatches'.trans hBatches⟩
  exact hKept.2.2

def stopping : List WatcherEvent :=
  collecting ++ [.process .ctrlC, .process (.aborts "host"), .process .drops, .process .drained,
    .process (.task 0 (.emitted Pipeline.uptime)), .process (.yielded 0), .drain .received,
    .drain .receivedNone, .drain (.exported (.ok ()))]

/-- The shutdown finds the host in a poll, and what it still says there is exported. -/
theorem a_late_signal_is_exported :
    let w := after step (new 3 [hostDescriptor] 1 512) stopping
    w.process.SinksGone ∧ w.pipeline.batches.flatten = w.pipeline.accepted ∧
    ∀ w', Reaches step w w' →
      w'.pipeline.emissions = w.pipeline.emissions ∧ w'.pipeline.batches = w.pipeline.batches :=
  nothing_follows_the_last_batch 3 [hostDescriptor] 1 512 _ (run_after rfl).reaches rfl

end Watcher

end HarnessSphere
