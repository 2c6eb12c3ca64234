import HarnessSphere.Library.Machine
import HarnessSphere.Runtime.Task

/-! # From the sources to the exporter

Every source emits through its `LayerSink` into one bounded channel. A single drain takes the signals
out, gathers them in a buffer and hands batches to the exporter: when the buffer is full, at a flush
tick, and when the last sink is gone. While an export is under way the drain takes nothing.
-/

namespace HarnessSphere

open Machine

/-- What a source put into its sink, and whether `try_send` accepted it. -/
structure Emission where
  source : SourceDescriptor
  signal : Signal
  accepted : Bool
  deriving DecidableEq, Repr

/-- Where `drain_loop` stands; after the `last` batch it returns. -/
inductive Drain where
  | selecting
  | exporting (last : Bool)
  | ended
  deriving DecidableEq, Repr

inductive PipelineEvent where
  | added (desc : SourceDescriptor)
  | emitted (i : Nat) (signal : Signal)
  | sinkGone (i : Nat)
  | sinkDropped
  | received
  | receivedNone
  | flushTick
  | exported (result : Except ExportError Unit)

/-- `sinks` are the sinks of the sources, as long as they are there, and `held` says whether the
supervisor still has its own. Of what happened, the emissions of all sources and the batches handed to
the exporter are kept. -/
structure Pipeline where
  capacity : Nat
  batchSize : Nat
  held : Bool
  sinks : List (Option SourceDescriptor)
  channel : List Signal
  dropped : UInt64
  buffer : List Signal
  drain : Drain
  emissions : List Emission
  batches : List (List Signal)

namespace Pipeline

def new (capacity batchSize : Nat) : Pipeline where
  capacity := capacity
  batchSize := batchSize
  held := true
  sinks := []
  channel := []
  dropped := 0
  buffer := []
  drain := .selecting
  emissions := []
  batches := []

def isOpen (p : Pipeline) : Bool := p.held || p.sinks.any Option.isSome

/-- `ChannelSink::emit`: a signal that finds the channel full is dropped and counted. -/
def emit (p : Pipeline) (source : SourceDescriptor) (signal : Signal) : Pipeline :=
  if p.drain ≠ .ended ∧ p.channel.length < p.capacity then
    { p with
      channel := p.channel ++ [stampLayer source.layer signal]
      emissions := p.emissions ++ [⟨source, signal, true⟩] }
  else
    { p with
      dropped := p.dropped + 1
      emissions := p.emissions ++ [⟨source, signal, false⟩] }

def exportBatch (p : Pipeline) (last : Bool) : Pipeline :=
  { p with batches := p.batches ++ [p.buffer], buffer := [], drain := .exporting last }

def receive (p : Pipeline) (signal : Signal) (rest : List Signal) : Pipeline :=
  { p with channel := rest, buffer := p.buffer ++ [signal] }

/-- Failing exports are logged and no more. -/
def step (p : Pipeline) : PipelineEvent → Option Pipeline
  | .added desc => if p.held then some { p with sinks := p.sinks ++ [some desc] } else none
  | .emitted i signal =>
    match p.sinks[i]? with
    | some (some source) => some (p.emit source signal)
    | _ => none
  | .sinkGone i => some { p with sinks := p.sinks.set i none }
  | .sinkDropped => some { p with held := false }
  | .received =>
    match p.drain, p.channel with
    | .selecting, signal :: rest =>
      if p.buffer.length + 1 ≥ p.batchSize then some ((p.receive signal rest).exportBatch false)
      else some (p.receive signal rest)
    | _, _ => none
  | .receivedNone =>
    if p.drain = .selecting ∧ p.channel = [] ∧ p.isOpen = false then some (p.exportBatch true)
    else none
  | .flushTick =>
    if p.drain = .selecting then
      if p.buffer = [] then some p else some (p.exportBatch false)
    else none
  | .exported _ =>
    match p.drain with
    | .exporting last => some { p with drain := if last then .ended else .selecting }
    | _ => none

/-- What a step of the pipeline can be. -/
inductive Act (p : Pipeline) : PipelineEvent → Pipeline → Prop where
  | added (desc : SourceDescriptor) (hHeld : p.held) :
      Act p (.added desc) { p with sinks := p.sinks ++ [some desc] }
  | emitted (i : Nat) (signal : Signal) (source : SourceDescriptor)
      (hSource : p.sinks[i]? = some (some source)) : Act p (.emitted i signal) (p.emit source signal)
  | sinkGone (i : Nat) : Act p (.sinkGone i) { p with sinks := p.sinks.set i none }
  | sinkDropped : Act p .sinkDropped { p with held := false }
  | received (signal : Signal) (rest : List Signal) (hDrain : p.drain = .selecting)
      (hChannel : p.channel = signal :: rest) (hRoom : p.buffer.length + 1 < p.batchSize) :
      Act p .received (p.receive signal rest)
  | filled (signal : Signal) (rest : List Signal) (hDrain : p.drain = .selecting)
      (hChannel : p.channel = signal :: rest) (hFull : p.batchSize ≤ p.buffer.length + 1) :
      Act p .received ((p.receive signal rest).exportBatch false)
  | receivedNone (hDrain : p.drain = .selecting) (hChannel : p.channel = [])
      (hClosed : p.isOpen = false) : Act p .receivedNone (p.exportBatch true)
  | flushTick (hDrain : p.drain = .selecting) (hBuffer : p.buffer = []) : Act p .flushTick p
  | flushed (hDrain : p.drain = .selecting) (hBuffer : p.buffer ≠ []) :
      Act p .flushTick (p.exportBatch false)
  | exported (result : Except ExportError Unit) (last : Bool) (hDrain : p.drain = .exporting last) :
      Act p (.exported result) { p with drain := if last then .ended else .selecting }

theorem act_of_step {p p' : Pipeline} {e : PipelineEvent} (h : p.step e = some p') : Act p e p' := by
  unfold step at h
  split at h
  case h_1 desc =>
    split_ifs at h with hHeld
    obtain rfl := Option.some.inj h
    exact .added desc hHeld
  case h_2 i signal =>
    split at h
    · obtain rfl := Option.some.inj h
      exact .emitted i signal _ ‹_›
    · cases h
  case h_3 i =>
    obtain rfl := Option.some.inj h
    exact .sinkGone i
  case h_4 =>
    obtain rfl := Option.some.inj h
    exact .sinkDropped
  case h_5 =>
    split at h
    · split_ifs at h with hFull
      · obtain rfl := Option.some.inj h
        exact .filled _ _ ‹_› ‹_› hFull
      · obtain rfl := Option.some.inj h
        exact .received _ _ ‹_› ‹_› (by omega)
    · cases h
  case h_6 =>
    split_ifs at h with hDone
    obtain rfl := Option.some.inj h
    exact .receivedNone hDone.1 hDone.2.1 hDone.2.2
  case h_7 =>
    split_ifs at h with hDrain hBuffer
    · obtain rfl := Option.some.inj h
      exact .flushTick hDrain hBuffer
    · obtain rfl := Option.some.inj h
      exact .flushed hDrain hBuffer
  case h_8 result =>
    split at h
    · obtain rfl := Option.some.inj h
      exact .exported result _ ‹_›
    · cases h

/-- What an emission leaves as it was. -/
theorem frame_of_emit (p : Pipeline) (source : SourceDescriptor) (signal : Signal) :
    (p.emit source signal).held = p.held ∧ (p.emit source signal).sinks = p.sinks ∧
      (p.emit source signal).drain = p.drain ∧ (p.emit source signal).buffer = p.buffer ∧
      (p.emit source signal).batches = p.batches := by
  unfold emit
  split_ifs <;> exact ⟨rfl, rfl, rfl, rfl, rfl⟩

/-- What entered the channel, in order. -/
def accepted (p : Pipeline) : List Signal :=
  (p.emissions.filter Emission.accepted).map fun e => stampLayer e.source.layer e.signal

def rejected (p : Pipeline) : List Emission := p.emissions.filter fun e => !e.accepted

/-- Every accepted signal is in one place, and the drain stops only when nothing is left. -/
structure Conserved (batchSize : Nat) (p : Pipeline) : Prop where
  size : p.batchSize = batchSize
  signals : p.accepted = p.batches.flatten ++ p.buffer ++ p.channel
  dropped : p.dropped = UInt64.ofNat p.rejected.length
  buffer : p.buffer.length < max 1 batchSize
  batches : ∀ b ∈ p.batches, b.length ≤ max 1 batchSize
  drained : p.drain ≠ .selecting → p.buffer = []
  closed : p.drain = .exporting true ∨ p.drain = .ended → p.channel = [] ∧ p.isOpen = false

variable {batchSize : Nat} {p : Pipeline}

theorem conserved_new (capacity batchSize : Nat) : Conserved batchSize (new capacity batchSize) where
  size := rfl
  signals := rfl
  dropped := rfl
  buffer := lt_max_of_lt_left Nat.zero_lt_one
  batches b hb := by cases hb
  drained _ := rfl
  closed h := by cases h with
    | inl h => cases h
    | inr h => cases h

theorem accepted_concat (p : Pipeline) (e : Emission) :
    ({ p with emissions := p.emissions ++ [e] } : Pipeline).accepted =
      if e.accepted then p.accepted ++ [stampLayer e.source.layer e.signal] else p.accepted := by
  unfold accepted
  cases h : e.accepted <;> simp [h]

theorem Conserved.emit (h : Conserved batchSize p) (source : SourceDescriptor) (signal : Signal)
    (hOpen : p.isOpen) : Conserved batchSize (p.emit source signal) := by
  unfold Pipeline.emit
  split_ifs with hRoom
  · refine ⟨h.size, ?_, ?_, h.buffer, h.batches, h.drained, ?_⟩
    · change ({ p with emissions := p.emissions ++ [⟨source, signal, true⟩] } : Pipeline).accepted = _
      rw [accepted_concat, if_pos rfl, h.signals, List.append_assoc]
    · rw [h.dropped]
      simp [rejected]
    · intro hClosed
      rw [(h.closed hClosed).2] at hOpen
      cases hOpen
  · refine ⟨h.size, ?_, ?_, h.buffer, h.batches, h.drained, h.closed⟩
    · change ({ p with emissions := p.emissions ++ [⟨source, signal, false⟩] } : Pipeline).accepted = _
      rw [accepted_concat, if_neg (by simp), h.signals]
    · change p.dropped + 1 = _
      rw [h.dropped]
      simp [rejected]

/-- The whole buffer becomes the next batch. -/
theorem conserved_exportBatch (hSize : p.batchSize = batchSize)
    (hSignals : p.accepted = p.batches.flatten ++ p.buffer ++ p.channel)
    (hDropped : p.dropped = UInt64.ofNat p.rejected.length) (hBuffer : p.buffer.length ≤ max 1 batchSize)
    (hBatches : ∀ b ∈ p.batches, b.length ≤ max 1 batchSize) (last : Bool)
    (hLast : last → p.channel = [] ∧ p.isOpen = false) :
    Conserved batchSize (p.exportBatch last) where
  size := hSize
  signals := by
    change p.accepted = (p.batches ++ [p.buffer]).flatten ++ [] ++ p.channel
    simp [hSignals]
  dropped := hDropped
  buffer := lt_max_of_lt_left Nat.zero_lt_one
  batches b hb := by
    obtain hOld | hNew := List.mem_append.mp hb
    · exact hBatches b hOld
    · rw [List.mem_singleton.mp hNew]
      exact hBuffer
  drained _ := rfl
  closed h := by
    obtain hLast' | hEnded := h
    · exact hLast (Drain.exporting.inj hLast')
    · cases hEnded

theorem Conserved.receive (h : Conserved batchSize p) {signal : Signal} {rest : List Signal}
    (hDrain : p.drain = .selecting) (hChannel : p.channel = signal :: rest) :
    Conserved batchSize
      (if p.buffer.length + 1 ≥ p.batchSize then (p.receive signal rest).exportBatch false
        else p.receive signal rest) := by
  have hSignals : (p.receive signal rest).accepted =
      (p.receive signal rest).batches.flatten ++ (p.receive signal rest).buffer ++ rest := by
    change p.accepted = p.batches.flatten ++ (p.buffer ++ [signal]) ++ rest
    rw [h.signals, hChannel]
    simp
  have hBuffer := h.buffer
  have hLength : (p.receive signal rest).buffer.length = p.buffer.length + 1 := by
    simp [Pipeline.receive]
  split_ifs with hFull
  · exact conserved_exportBatch (p := p.receive signal rest) h.size hSignals h.dropped (by omega)
      h.batches false nofun
  · rw [h.size] at hFull
    refine ⟨h.size, hSignals, h.dropped, by omega, h.batches, fun hNot => absurd hDrain hNot, ?_⟩
    intro hClosed
    rw [show (p.receive signal rest).drain = p.drain from rfl, hDrain] at hClosed
    obtain hClosed | hClosed := hClosed <;> cases hClosed

theorem Conserved.lessOpen (h : Conserved batchSize p) (held : Bool)
    {sinks : List (Option SourceDescriptor)}
    (hOpen : p.isOpen = false → (held || sinks.any Option.isSome) = false) :
    Conserved batchSize { p with held := held, sinks := sinks } :=
  ⟨h.size, h.signals, h.dropped, h.buffer, h.batches, h.drained,
    fun hClosed => (h.closed hClosed).imp_right hOpen⟩

theorem conserved_of_step {p' : Pipeline} {e : PipelineEvent} (h : Conserved batchSize p)
    (hStep : p.step e = some p') : Conserved batchSize p' := by
  unfold step at hStep
  cases e with
  | added desc =>
    dsimp only at hStep
    split_ifs at hStep with hHeld
    cases hStep
    apply h.lessOpen p.held
    intro hClosed
    simp [isOpen, hHeld] at hClosed
  | emitted i signal =>
    dsimp only at hStep
    split at hStep
    · rename_i source hSource
      cases hStep
      apply h.emit
      have hSome : p.sinks.any Option.isSome :=
        List.any_eq_true.mpr ⟨some source, List.mem_of_getElem? hSource, rfl⟩
      simp [isOpen, hSome]
    · cases hStep
  | sinkGone i =>
    cases hStep
    apply h.lessOpen p.held
    intro hClosed
    obtain ⟨hHeld, hSinks⟩ := Bool.or_eq_false_iff.mp hClosed
    rw [hHeld, Bool.false_or]
    rw [List.any_eq_false] at hSinks ⊢
    intro sink hSink
    obtain hOld | rfl := List.mem_or_eq_of_mem_set hSink
    · exact hSinks sink hOld
    · simp
  | sinkDropped =>
    cases hStep
    apply h.lessOpen false
    intro hClosed
    rw [Bool.false_or]
    exact (Bool.or_eq_false_iff.mp hClosed).2
  | received =>
    dsimp only at hStep
    split at hStep
    · have hReceived := h.receive ‹_› ‹_›
      split_ifs at hStep hReceived <;> cases hStep <;> exact hReceived
    · cases hStep
  | receivedNone =>
    dsimp only at hStep
    split_ifs at hStep with hDone
    cases hStep
    exact conserved_exportBatch h.size h.signals h.dropped h.buffer.le h.batches true fun _ => hDone.2
  | flushTick =>
    dsimp only at hStep
    split_ifs at hStep with hDrain hEmpty
    · cases hStep
      exact h
    · cases hStep
      exact conserved_exportBatch h.size h.signals h.dropped h.buffer.le h.batches false nofun
  | exported result =>
    dsimp only at hStep
    split at hStep
    · rename_i last hDrain
      cases hStep
      have hBuffer : p.buffer = [] := h.drained (by simp [hDrain])
      refine ⟨h.size, h.signals, h.dropped, h.buffer, h.batches, fun _ => hBuffer, ?_⟩
      intro hClosed
      cases last with
      | true => exact h.closed (.inl hDrain)
      | false => simp at hClosed
    · cases hStep

theorem conserved_of_reaches {capacity : Nat} (h : Reaches step (new capacity batchSize) p) :
    Conserved batchSize p :=
  h.invariant (conserved_new capacity batchSize) fun _ _ _ hConserved hStep =>
    conserved_of_step hConserved hStep

def carriesLayer (signal : Signal) : Bool := signal.attributes.any fun kv => kv.1 = layerAttr

theorem stampLayer_of_carries {signal : Signal} (h : carriesLayer signal) (layer : Layer) :
    stampLayer layer signal = signal := by
  refine Eq.trans (Signal.modifyAttributes_congr ?_) signal.modifyAttributes_id
  exact if_pos h

theorem stampLayer_of_not_carries {signal : Signal} (h : ¬ carriesLayer signal) (layer : Layer) :
    stampLayer layer signal =
      signal.modifyAttributes (· ++ [(layerAttr, .str layer.asStr)]) := by
  apply Signal.modifyAttributes_congr
  exact if_neg h

/-- At every state the signals the channel accepted are the batches, the buffer and the channel, in
this order; the drops are counted, modulo the width of the counter; no batch is too long; the drain
ends with nothing left; and a signal gains the layer of its source exactly when it had none. -/
theorem nothing_lost_nothing_twice (capacity batchSize : Nat) (p : Pipeline)
    (hReach : Reaches step (new capacity batchSize) p) :
    p.accepted = p.batches.flatten ++ p.buffer ++ p.channel ∧
    p.dropped.toNat = p.rejected.length % 2 ^ 64 ∧
    (∀ b ∈ p.batches, b.length ≤ max 1 batchSize) ∧
    (p.drain = .ended → p.buffer = [] ∧ p.channel = []) ∧
    ∀ e ∈ p.emissions,
      (carriesLayer e.signal → stampLayer e.source.layer e.signal = e.signal) ∧
      (¬ carriesLayer e.signal → stampLayer e.source.layer e.signal =
          e.signal.modifyAttributes (· ++ [(layerAttr, .str e.source.layer.asStr)]) ∧
        (stampLayer e.source.layer e.signal).attributes.filter (fun kv => kv.1 = layerAttr) =
          [(layerAttr, .str e.source.layer.asStr)]) := by
  have h := conserved_of_reaches hReach
  refine ⟨h.signals, ?_, h.batches, ?_, ?_⟩
  · rw [h.dropped]
    exact UInt64.toNat_ofNat'
  · intro hEnded
    exact ⟨h.drained (by simp [hEnded]), (h.closed (.inr hEnded)).1⟩
  · intro e _
    refine ⟨fun hCarries => stampLayer_of_carries hCarries _, fun hNot => ?_⟩
    have hStamped := stampLayer_of_not_carries hNot e.source.layer
    refine ⟨hStamped, ?_⟩
    have hNone : e.signal.attributes.filter (fun kv => kv.1 = layerAttr) = [] := by
      rw [List.filter_eq_nil_iff]
      intro kv hkv hLayer
      exact hNot (List.any_eq_true.mpr ⟨kv, hkv, hLayer⟩)
    rw [hStamped, Signal.attributes_modifyAttributes, List.filter_append, hNone]
    simp

def uptime : Signal := .metric ⟨"system.uptime", .gauge, 1, none, []⟩

/-- Three signals for a channel of two, taken out one by one, then the end. -/
def overrun : List PipelineEvent :=
  [.added hostDescriptor, .emitted 0 uptime, .emitted 0 uptime, .emitted 0 uptime, .received, .flushTick,
    .exported (.error (.failed "unreachable")), .received, .sinkGone 0, .sinkDropped, .receivedNone,
    .exported (.ok ())]

theorem an_overrun_drops_one :
    let p := after step (new 2 512) overrun
    p.accepted = p.batches.flatten ++ p.buffer ++ p.channel ∧ p.batches.length = 2 ∧
      p.buffer = [] ∧ p.channel = [] ∧ p.dropped.toNat = 1 := by
  intro p
  obtain ⟨hSignals, hDropped, -, hEnded, -⟩ :=
    nothing_lost_nothing_twice 2 512 p (run_after rfl).reaches
  exact ⟨hSignals, rfl, (hEnded rfl).1, (hEnded rfl).2, hDropped⟩

theorem run_of_full_channel {source : SourceDescriptor} {i : Nat} (signal : Signal)
    (hSource : p.sinks[i]? = some (some source)) (hFull : ¬ p.channel.length < p.capacity) (n : Nat) :
    Run step Any p (List.replicate n (.emitted i signal))
      { p with
        dropped := p.dropped + UInt64.ofNat n
        emissions := p.emissions ++ List.replicate n ⟨source, signal, false⟩ } := by
  induction n with
  | zero => simpa using Run.nil
  | succ n ih =>
    rw [List.replicate_succ']
    refine ih.snoc trivial ?_
    simp only [step, hSource]
    rw [emit, if_neg (by simp [hFull])]
    simp [List.replicate_succ', UInt64.add_assoc]

/-- After 2^64 drops the counter is back at zero. -/
theorem the_counter_wraps :
    ∃ p, Reaches step (new 1 512) p ∧ p.rejected.length = 2 ^ 64 ∧ p.dropped = 0 := by
  let full := after step (new 1 512) [.added hostDescriptor, .emitted 0 uptime]
  have hFull : Run step Any (new 1 512) [.added hostDescriptor, .emitted 0 uptime] full := run_after rfl
  have hSource : full.sinks[0]? = some (some hostDescriptor) := rfl
  have hRun := run_of_full_channel uptime hSource (by decide) (2 ^ 64)
  refine ⟨_, hFull.reaches.trans hRun.reaches, ?_, rfl⟩
  have hNone : full.emissions.filter (fun e => !e.accepted) = [] := rfl
  simp only [rejected, List.filter_append, hNone, List.nil_append, List.filter_replicate, Bool.not_false,
    if_true, List.length_replicate]

end Pipeline

end HarnessSphere
