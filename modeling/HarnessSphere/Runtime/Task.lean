import HarnessSphere.Domain.Policy

/-! # One supervised task

The body of `supervise_source`, cut at its awaits and at the places where a source speaks. What the
source does is the choice of the event; what the task makes of it is the step. A task carries what it
has put into the signal channel, and says when it hands a fatal signal to the supervisor.
-/

namespace HarnessSphere

structure FatalSignal where
  source : String
  reason : String
  deriving DecidableEq, Repr

inductive Origin where
  | boot | discovered
  deriving DecidableEq, Repr

inductive Ending where
  | notApplicable
  | fatalProbe
  | retired (terminal : List Signal)
  | panicked
  | aborted
  deriving DecidableEq, Repr

inductive Resume where
  | loop | fatalProbe | panicked
  deriving DecidableEq, Repr

/-- Where a task stands. A report waits for room in the channel of fatal signals; a retirement still
has to emit the rest of its terminal signals. -/
inductive Point where
  | probing
  | waiting
  | sleeping (wake : Nat)
  | collecting
  | reporting (fatal : FatalSignal) (resume : Resume)
  | retiring (terminal rest : List Signal)
  | ended (ending : Ending)
  deriving DecidableEq, Repr

def Resume.point : Resume → Point
  | .loop => .waiting
  | .fatalProbe => .ended .fatalProbe
  | .panicked => .ended .panicked

def Point.sleeps : Point → Bool
  | .sleeping _ => true
  | _ => false

inductive Stop where
  | pending | sent | dropped
  deriving DecidableEq, Repr

inductive Phase where
  | collect | retire
  deriving DecidableEq, Repr

inductive CollectOutcome where
  | ok
  | err (e : CollectError)
  | panicked
  deriving DecidableEq, Repr

def CollectOutcome.failed (outcome : CollectOutcome) : Bool := outcome ≠ .ok

inductive TaskEvent where
  | probed (r : ProbeResult)
  | ticked
  | stopSeen (terminal : List Signal)
  | woke
  | emitted (signal : Signal)
  | collected (outcome : CollectOutcome)
  | reported
  | retired
  | panicked
  deriving DecidableEq, Repr

/-- `LayerSink::emit`: a signal that carries no layer gets the layer of its source. -/
def stampLayer (layer : Layer) (signal : Signal) : Signal :=
  signal.modifyAttributes fun attrs =>
    if attrs.any fun kv => kv.1 = layerAttr then attrs
    else attrs ++ [(layerAttr, .str layer.asStr)]

structure Task where
  desc : SourceDescriptor
  origin : Origin
  point : Point
  breaker : CircuitBreaker
  tick : Nat
  stop : Stop
  sent : List (Phase × Signal)
  deriving DecidableEq, Repr

namespace Task

def spawn (desc : SourceDescriptor) (origin : Origin) (criticalThreshold : UInt32) : Task where
  desc := desc
  origin := origin
  point := .probing
  breaker := .new criticalThreshold
  tick := 0
  stop := .pending
  sent := []

def finished (t : Task) : Bool := match t.point with
  | .ended _ => true
  | _ => false

/-- The whole body runs under `catch_unwind`. -/
def panic (t : Task) : Task :=
  match t.desc.criticality with
  | .critical =>
    { t with point := .reporting ⟨t.desc.name, "supervisor task panicked"⟩ .panicked }
  | .optional => { t with point := .ended .panicked }

/-- `interval` refuses a period of zero; its first tick is due at once. -/
def enterLoop (t : Task) (now : Nat) : Task :=
  if t.desc.defaultInterval = 0 then t.panic else { t with point := .waiting, tick := now }

def probed (t : Task) (now : Nat) : ProbeResult → Task
  | .ready => t.enterLoop now
  | .notApplicable =>
    match t.origin with
    | .discovered => { t with breaker := t.breaker.tripOpen }.enterLoop now
    | .boot => { t with point := .ended .notApplicable }
  | .unavailable _ => { t with breaker := t.breaker.tripOpen }.enterLoop now
  | .fatal msg =>
    { t with point := .reporting ⟨t.desc.name, "probe fatal: " ++ msg⟩ .fatalProbe }

/-- `MissedTickBehavior::Skip`. -/
def nextTick (t : Task) (now : Nat) : Nat :=
  if t.tick < now then now + t.desc.defaultInterval - (now - t.tick) % t.desc.defaultInterval
  else t.tick + t.desc.defaultInterval

def ticked (t : Task) (now : Nat) : Task :=
  { t with
    tick := t.nextTick now
    point := if t.breaker.isOpen then .sleeping (now + t.breaker.backoff) else .collecting }

def handleFailure (t : Task) (err : String) : Task :=
  let breaker := t.breaker.recordFailure
  match classifyFailure t.desc.criticality breaker with
  | .degrade => { t with breaker := breaker, point := .waiting }
  | .fatal => { t with breaker := breaker, point := .reporting ⟨t.desc.name, err⟩ .loop }

def collected (t : Task) : CollectOutcome → Task
  | .ok => { t with breaker := t.breaker.recordSuccess, point := .waiting }
  | .err e => t.handleFailure e.toString
  | .panicked => t.handleFailure "panic contained in the collector"

def emit (t : Task) (phase : Phase) (signal : Signal) : Task :=
  { t with sent := t.sent ++ [(phase, stampLayer t.desc.layer signal)] }

/-- One step at time `now`; `room` says whether the channel of fatal signals can take one more. -/
def step (now : Nat) (room : Bool) (t : Task) (e : TaskEvent) : Option (Task × Option FatalSignal) :=
  match t.point, e with
  | .probing, .probed r => some (t.probed now r, none)
  | .probing, .panicked => some (t.panic, none)
  | .waiting, .ticked => if t.tick ≤ now then some (t.ticked now, none) else none
  | .waiting, .stopSeen terminal =>
    if t.stop = .pending then none else some ({ t with point := .retiring terminal terminal }, none)
  | .sleeping wake, .woke => if wake ≤ now then some ({ t with point := .collecting }, none) else none
  | .collecting, .emitted signal => some (t.emit .collect signal, none)
  | .collecting, .collected outcome => some (t.collected outcome, none)
  | .reporting fatal resume, .reported =>
    if room then some ({ t with point := resume.point }, some fatal) else none
  | .retiring terminal (signal :: rest), .emitted signal' =>
    if signal' = signal then some ({ t with point := .retiring terminal rest }.emit .retire signal, none)
    else none
  | .retiring terminal [], .retired => some ({ t with point := .ended (.retired terminal) }, none)
  | .retiring _ _, .panicked => some (t.panic, none)
  | _, _ => none

/-- What each event finds and what it leaves behind. -/
inductive Act (now : Nat) (room : Bool) (t : Task) : TaskEvent → Task → Option FatalSignal → Prop where
  | probed (r : ProbeResult) (hPoint : t.point = .probing) :
      Act now room t (.probed r) (t.probed now r) none
  | probePanicked (hPoint : t.point = .probing) : Act now room t .panicked t.panic none
  | ticked (hPoint : t.point = .waiting) (hDue : t.tick ≤ now) :
      Act now room t .ticked (t.ticked now) none
  | stopSeen (terminal : List Signal) (hPoint : t.point = .waiting) (hStop : t.stop ≠ .pending) :
      Act now room t (.stopSeen terminal) { t with point := .retiring terminal terminal } none
  | woke (wake : Nat) (hPoint : t.point = .sleeping wake) (hDue : wake ≤ now) :
      Act now room t .woke { t with point := .collecting } none
  | emitted (signal : Signal) (hPoint : t.point = .collecting) :
      Act now room t (.emitted signal) (t.emit .collect signal) none
  | collected (outcome : CollectOutcome) (hPoint : t.point = .collecting) :
      Act now room t (.collected outcome) (t.collected outcome) none
  | reported (fatal : FatalSignal) (resume : Resume) (hPoint : t.point = .reporting fatal resume)
      (hRoom : room) : Act now room t .reported { t with point := resume.point } (some fatal)
  | terminal (terminal : List Signal) (signal : Signal) (rest : List Signal)
      (hPoint : t.point = .retiring terminal (signal :: rest)) :
      Act now room t (.emitted signal)
        ({ t with point := .retiring terminal rest }.emit .retire signal) none
  | retired (terminal : List Signal) (hPoint : t.point = .retiring terminal []) :
      Act now room t .retired { t with point := .ended (.retired terminal) } none
  | retirePanicked (terminal rest : List Signal) (hPoint : t.point = .retiring terminal rest) :
      Act now room t .panicked t.panic none

theorem act_of_step {now : Nat} {room : Bool} {t t' : Task} {e : TaskEvent}
    {fatal : Option FatalSignal} (h : t.step now room e = some (t', fatal)) :
    Act now room t e t' fatal := by
  unfold step at h
  split at h
  case h_1 r hPoint =>
    obtain ⟨rfl, rfl⟩ := Prod.mk.inj (Option.some.inj h)
    exact .probed r hPoint
  case h_2 hPoint =>
    obtain ⟨rfl, rfl⟩ := Prod.mk.inj (Option.some.inj h)
    exact .probePanicked hPoint
  case h_3 hPoint =>
    split_ifs at h with hDue
    obtain ⟨rfl, rfl⟩ := Prod.mk.inj (Option.some.inj h)
    exact .ticked hPoint hDue
  case h_4 terminal hPoint =>
    split_ifs at h with hStop
    obtain ⟨rfl, rfl⟩ := Prod.mk.inj (Option.some.inj h)
    exact .stopSeen terminal hPoint hStop
  case h_5 wake hPoint =>
    split_ifs at h with hDue
    obtain ⟨rfl, rfl⟩ := Prod.mk.inj (Option.some.inj h)
    exact .woke wake hPoint hDue
  case h_6 signal hPoint =>
    obtain ⟨rfl, rfl⟩ := Prod.mk.inj (Option.some.inj h)
    exact .emitted signal hPoint
  case h_7 outcome hPoint =>
    obtain ⟨rfl, rfl⟩ := Prod.mk.inj (Option.some.inj h)
    exact .collected outcome hPoint
  case h_8 fatal resume hPoint =>
    split_ifs at h with hRoom
    obtain ⟨rfl, rfl⟩ := Prod.mk.inj (Option.some.inj h)
    exact .reported fatal resume hPoint hRoom
  case h_9 terminal signal rest signal' hPoint =>
    split_ifs at h with hSignal
    obtain ⟨rfl, rfl⟩ := Prod.mk.inj (Option.some.inj h)
    subst hSignal
    exact .terminal terminal signal' rest hPoint
  case h_10 terminal hPoint =>
    obtain ⟨rfl, rfl⟩ := Prod.mk.inj (Option.some.inj h)
    exact .retired terminal hPoint
  case h_11 terminal rest hPoint =>
    obtain ⟨rfl, rfl⟩ := Prod.mk.inj (Option.some.inj h)
    exact .retirePanicked terminal rest hPoint
  case h_12 => cases h

/-- Before the end of the loop: nothing terminal was emitted. -/
def live (t : Task) : Bool := match t.point with
  | .probing | .waiting | .sleeping _ | .collecting | .reporting _ .loop => true
  | _ => false

def failed (t : Task) : Bool := match t.point with
  | .reporting _ .loop | .ended (.retired _) => false
  | .reporting _ _ | .ended _ => true
  | _ => false

structure SameSource (t t' : Task) : Prop where
  desc : t'.desc = t.desc
  origin : t'.origin = t.origin
  stop : t'.stop = t.stop

theorem SameSource.refl (t : Task) : SameSource t t := ⟨rfl, rfl, rfl⟩

/-- What a step can do to the log. -/
inductive Move (t t' : Task) : Prop where
  | loop (hFrom : t.live) (hTo : t'.live) (hSent : t'.sent = t.sent)
  | speak (signal : Signal) (hPoint : t.point = .collecting) (hTo : t' = t.emit .collect signal)
  | retire (terminal : List Signal) (hPoint : t.point = .waiting) (hStop : t.stop ≠ .pending)
      (hTo : t' = { t with point := .retiring terminal terminal })
  | terminal (terminal : List Signal) (signal : Signal) (rest : List Signal)
      (hPoint : t.point = .retiring terminal (signal :: rest))
      (hTo : t' = { t with point := .retiring terminal rest }.emit .retire signal)
  | retired (terminal : List Signal) (hPoint : t.point = .retiring terminal [])
      (hTo : t' = { t with point := .ended (.retired terminal) })
  | fail (hFrom : ¬ t.finished) (hTo : t'.failed) (hSent : t'.sent = t.sent)

theorem panic_spec (t : Task) : SameSource t t.panic ∧ t.panic.failed ∧ t.panic.sent = t.sent := by
  unfold panic
  split <;> exact ⟨⟨rfl, rfl, rfl⟩, rfl, rfl⟩

theorem enterLoop_spec (t : Task) (now : Nat) :
    SameSource t (t.enterLoop now) ∧ (t.enterLoop now).sent = t.sent ∧
      ((t.enterLoop now).live ∨ (t.enterLoop now).failed) := by
  unfold enterLoop
  split
  · obtain ⟨hSame, hFailed, hSent⟩ := t.panic_spec
    exact ⟨hSame, hSent, .inr hFailed⟩
  · exact ⟨⟨rfl, rfl, rfl⟩, rfl, .inl rfl⟩

theorem probed_spec (t : Task) (now : Nat) (r : ProbeResult) :
    SameSource t (t.probed now r) ∧ (t.probed now r).sent = t.sent ∧
      ((t.probed now r).live ∨ (t.probed now r).failed) := by
  have hTripped := ({ t with breaker := t.breaker.tripOpen } : Task).enterLoop_spec now
  have hLoop : SameSource t ({ t with breaker := t.breaker.tripOpen }.enterLoop now) :=
    ⟨hTripped.1.desc, hTripped.1.origin, hTripped.1.stop⟩
  cases r with
  | ready => exact t.enterLoop_spec now
  | unavailable msg => exact ⟨hLoop, hTripped.2⟩
  | fatal msg => exact ⟨⟨rfl, rfl, rfl⟩, rfl, .inr rfl⟩
  | notApplicable =>
    unfold probed
    dsimp only
    split
    · exact ⟨hLoop, hTripped.2⟩
    · exact ⟨⟨rfl, rfl, rfl⟩, rfl, .inr rfl⟩

theorem handleFailure_spec (t : Task) (err : String) :
    SameSource t (t.handleFailure err) ∧ (t.handleFailure err).sent = t.sent ∧
      (t.handleFailure err).live := by
  unfold handleFailure
  dsimp only
  split <;> exact ⟨⟨rfl, rfl, rfl⟩, rfl, rfl⟩

theorem collected_spec (t : Task) (outcome : CollectOutcome) :
    SameSource t (t.collected outcome) ∧ (t.collected outcome).sent = t.sent ∧
      (t.collected outcome).live := by
  cases outcome with
  | ok => exact ⟨⟨rfl, rfl, rfl⟩, rfl, rfl⟩
  | err e => exact t.handleFailure_spec _
  | panicked => exact t.handleFailure_spec _

theorem ticked_spec (t : Task) (now : Nat) :
    SameSource t (t.ticked now) ∧ (t.ticked now).sent = t.sent ∧ (t.ticked now).live := by
  unfold ticked
  refine ⟨⟨rfl, rfl, rfl⟩, rfl, ?_⟩
  cases t.breaker.isOpen <;> rfl

theorem spec_of_act {now : Nat} {room : Bool} {t t' : Task} {e : TaskEvent}
    {fatal : Option FatalSignal} (h : Act now room t e t' fatal) : SameSource t t' ∧ Move t t' := by
  cases h with
  | probed r hPoint =>
    obtain ⟨hSame, hSent, hLive | hFailed⟩ := t.probed_spec now r
    · exact ⟨hSame, .loop (by simp [live, hPoint]) hLive hSent⟩
    · exact ⟨hSame, .fail (by simp [finished, hPoint]) hFailed hSent⟩
  | probePanicked hPoint | retirePanicked _ _ hPoint =>
    obtain ⟨hSame, hFailed, hSent⟩ := t.panic_spec
    exact ⟨hSame, .fail (by simp [finished, hPoint]) hFailed hSent⟩
  | ticked hPoint hDue =>
    obtain ⟨hSame, hSent, hLive⟩ := t.ticked_spec now
    exact ⟨hSame, .loop (by simp [live, hPoint]) hLive hSent⟩
  | stopSeen terminal hPoint hStop => exact ⟨⟨rfl, rfl, rfl⟩, .retire terminal hPoint hStop rfl⟩
  | woke wake hPoint hDue =>
    exact ⟨⟨rfl, rfl, rfl⟩, .loop (by simp [live, hPoint]) rfl rfl⟩
  | emitted signal hPoint => exact ⟨⟨rfl, rfl, rfl⟩, .speak signal hPoint rfl⟩
  | collected outcome hPoint =>
    obtain ⟨hSame, hSent, hLive⟩ := t.collected_spec outcome
    exact ⟨hSame, .loop (by simp [live, hPoint]) hLive hSent⟩
  | reported fatal resume hPoint hRoom =>
    refine ⟨⟨rfl, rfl, rfl⟩, ?_⟩
    cases resume with
    | loop => exact .loop (by simp [live, hPoint]) rfl rfl
    | fatalProbe => exact .fail (by simp [finished, hPoint]) rfl rfl
    | panicked => exact .fail (by simp [finished, hPoint]) rfl rfl
  | terminal terminal signal rest hPoint =>
    exact ⟨⟨rfl, rfl, rfl⟩, .terminal terminal signal rest hPoint rfl⟩
  | retired terminal hPoint => exact ⟨⟨rfl, rfl, rfl⟩, .retired terminal hPoint rfl⟩

theorem step_spec {now : Nat} {room : Bool} {t t' : Task} {e : TaskEvent}
    {fatal : Option FatalSignal} (h : t.step now room e = some (t', fatal)) :
    SameSource t t' ∧ Move t t' := spec_of_act (act_of_step h)

theorem not_step_of_finished {now : Nat} {room : Bool} {t : Task} {e : TaskEvent}
    (h : t.finished) : t.step now room e = none := by
  unfold finished at h
  split at h
  · rename_i ending hPoint
    unfold step
    rw [hPoint]
  · cases h

theorem not_live_of_failed {t : Task} (h : t.failed) : ¬ t.live := by
  unfold failed at h
  split at h <;> simp_all [live]

theorem not_probing_of_failed {t : Task} (h : t.failed) : t.point ≠ .probing := by
  intro hProbing
  rw [failed, hProbing] at h
  cases h

/-- Neither asleep nor collecting. -/
def idle (t : Task) : Bool := match t.point with
  | .sleeping _ | .collecting => false
  | _ => true

theorem of_idle {t : Task} (h : t.idle) : t.point.sleeps = false ∧ t.point ≠ .collecting := by
  unfold idle at h
  split at h
  · cases h
  · cases h
  · rename_i hAwake hFree
    refine ⟨?_, hFree⟩
    unfold Point.sleeps
    split
    · exact absurd ‹_› (hAwake _)
    · rfl

theorem idle_of_failed {t : Task} (h : t.failed) : t.idle := by
  unfold failed at h
  split at h <;> simp_all [idle]

/-- A task that has probed is in its loop, with the breaker open unless the probe returned `Ready`;
or it is on its way out. -/
theorem probed_cases (t : Task) (now : Nat) (r : ProbeResult) :
    (t.probed now r).failed ∧ (t.desc.defaultInterval = 0 ∨ (∃ msg, r = .fatal msg) ∨
      r = .notApplicable ∧ t.origin = .boot) ∨
    r = .ready ∧ t.probed now r = { t with point := .waiting, tick := now } ∨
    r ≠ .ready ∧ t.probed now r =
      { t with breaker := t.breaker.tripOpen, point := .waiting, tick := now } := by
  obtain hZero | hPos := Nat.eq_zero_or_pos t.desc.defaultInterval
  · left
    refine ⟨?_, .inl hZero⟩
    cases r with
    | fatal msg => rfl
    | ready | unavailable msg =>
      simp only [probed, enterLoop, hZero, if_true]
      exact (panic_spec _).2.1
    | notApplicable =>
      simp only [probed, enterLoop, hZero, if_true]
      split
      · exact (panic_spec _).2.1
      · rfl
  · have hNonzero : t.desc.defaultInterval ≠ 0 := Nat.ne_of_gt hPos
    cases r with
    | fatal msg => exact .inl ⟨rfl, .inr (.inl ⟨msg, rfl⟩)⟩
    | ready => exact .inr (.inl ⟨rfl, by simp only [probed, enterLoop, hNonzero, if_false]⟩)
    | unavailable msg =>
      exact .inr (.inr ⟨by simp, by simp only [probed, enterLoop, hNonzero, if_false]⟩)
    | notApplicable =>
      cases hOrigin : t.origin with
      | boot => exact .inl ⟨by simp [probed, hOrigin, failed], .inr (.inr ⟨rfl, rfl⟩)⟩
      | discovered =>
        refine .inr (.inr ⟨by simp, ?_⟩)
        simp only [probed, hOrigin, enterLoop, hNonzero, if_false]

theorem idle_probed (t : Task) (now : Nat) (r : ProbeResult) : (t.probed now r).idle := by
  obtain ⟨hFailed, -⟩ | ⟨-, hTo⟩ | ⟨-, hTo⟩ := t.probed_cases now r
  · exact idle_of_failed hFailed
  · rw [hTo]
    rfl
  · rw [hTo]
    rfl

theorem point_handleFailure (t : Task) (err : String) :
    (t.handleFailure err).point =
      if classifyFailure t.desc.criticality t.breaker.recordFailure = .fatal
      then .reporting ⟨t.desc.name, err⟩ .loop else .waiting := by
  unfold handleFailure
  dsimp only
  split <;> simp_all

theorem breaker_handleFailure (t : Task) (err : String) :
    (t.handleFailure err).breaker = t.breaker.recordFailure := by
  unfold handleFailure
  dsimp only
  split <;> rfl

theorem point_collected (t : Task) (outcome : CollectOutcome) :
    (t.collected outcome).point = .waiting ∨
      ∃ reason, (t.collected outcome).point = .reporting ⟨t.desc.name, reason⟩ .loop := by
  cases outcome with
  | ok => exact .inl rfl
  | err _ | panicked =>
    simp only [collected, point_handleFailure]
    split_ifs
    · exact .inr ⟨_, rfl⟩
    · exact .inl rfl

/-- A report waits for the channel of fatal signals and for nothing else. -/
theorem step_of_reporting {t : Task} {fatal : FatalSignal} {resume : Resume}
    (h : t.point = .reporting fatal resume) (now : Nat) (room : Bool) (e : TaskEvent) :
    t.step now room e =
      if e = .reported ∧ room then some ({ t with point := resume.point }, some fatal) else none := by
  unfold step
  rw [h]
  cases e <;> simp

theorem point_collected_of_optional (t : Task) (hOptional : t.desc.criticality = .optional)
    (outcome : CollectOutcome) : (t.collected outcome).point = .waiting := by
  cases outcome with
  | ok => rfl
  | err _ | panicked =>
    simp [collected, point_handleFailure, hOptional, classifyFailure_optional]

theorem idle_collected (t : Task) (outcome : CollectOutcome) : (t.collected outcome).idle := by
  obtain hWaiting | ⟨reason, hReporting⟩ := t.point_collected outcome
  · simp [idle, hWaiting]
  · simp [idle, hReporting]

theorem breaker_collected (t : Task) (outcome : CollectOutcome) :
    (t.collected outcome).breaker =
      if outcome.failed then t.breaker.recordFailure else t.breaker.recordSuccess := by
  cases outcome with
  | ok => rfl
  | err e => exact t.breaker_handleFailure _
  | panicked => exact t.breaker_handleFailure _

def terminalBlock (t : Task) (signals : List Signal) : List (Phase × Signal) :=
  signals.map fun s => (.retire, stampLayer t.desc.layer s)

/-- What a task sent: first what its collections emitted, then what its retirement did. -/
structure SentBlocks (t : Task) (before after : List (Phase × Signal)) : Prop where
  sent : t.sent = before ++ after
  collects : ∀ x ∈ before, x.1 = .collect
  retires : ∀ x ∈ after, x.1 = .retire
  live : t.live → after = []
  retiring : ∀ terminal rest, t.point = .retiring terminal rest →
    ∃ done, terminal = done ++ rest ∧ after = t.terminalBlock done
  retired : ∀ terminal, t.point = .ended (.retired terminal) → after = t.terminalBlock terminal

theorem sentBlocks_spawn (desc : SourceDescriptor) (origin : Origin) (criticalThreshold : UInt32) :
    SentBlocks (spawn desc origin criticalThreshold) [] [] :=
  ⟨rfl, by simp, by simp, fun _ => rfl, by simp [spawn], by simp [spawn]⟩

theorem SentBlocks.of_live {t t' : Task} {before after : List (Phase × Signal)}
    (h : SentBlocks t before after) (hFrom : t.live) (hTo : t'.live) (hSent : t'.sent = t.sent) :
    SentBlocks t' before after := by
  refine ⟨hSent.trans h.sent, h.collects, h.retires, fun _ => h.live hFrom, ?_, ?_⟩
  · intro terminal rest hPoint
    simp [Task.live, hPoint] at hTo
  · intro terminal hPoint
    simp [Task.live, hPoint] at hTo

theorem SentBlocks.of_failed {t t' : Task} {before after : List (Phase × Signal)}
    (h : SentBlocks t before after) (hTo : t'.failed) (hSent : t'.sent = t.sent) :
    SentBlocks t' before after := by
  refine ⟨hSent.trans h.sent, h.collects, h.retires, ?_, ?_, ?_⟩
  · intro hLive
    unfold failed at hTo
    split at hTo <;> simp_all [Task.live]
  · intro terminal rest hPoint
    simp [failed, hPoint] at hTo
  · intro terminal hPoint
    simp [failed, hPoint] at hTo

theorem SentBlocks.move {t t' : Task} {before after : List (Phase × Signal)}
    (h : SentBlocks t before after) (hMove : Move t t') :
    ∃ before' after', SentBlocks t' before' after' := by
  cases hMove with
  | loop hFrom hTo hSent => exact ⟨before, after, h.of_live hFrom hTo hSent⟩
  | speak signal hPoint hTo =>
    subst hTo
    have hLive : t.live := by simp [Task.live, hPoint]
    obtain rfl := h.live hLive
    refine ⟨before ++ [(.collect, stampLayer t.desc.layer signal)], [], ?_, ?_, h.retires,
      fun _ => rfl, ?_, ?_⟩
    · simp [emit, h.sent]
    · intro x hx
      rcases List.mem_append.mp hx with hx | hx
      · exact h.collects x hx
      · rw [List.mem_singleton.mp hx]
    · intro terminal rest hRetiring
      simp [emit, hPoint] at hRetiring
    · intro terminal hRetired
      simp [emit, hPoint] at hRetired
  | retire terminal hPoint hStop hTo =>
    subst hTo
    have hLive : t.live := by simp [Task.live, hPoint]
    obtain rfl := h.live hLive
    refine ⟨before, [], h.sent, h.collects, h.retires, fun _ => rfl, ?_, ?_⟩
    · intro terminal' rest hRetiring
      obtain ⟨rfl, rfl⟩ := Point.retiring.inj hRetiring
      exact ⟨[], rfl, rfl⟩
    · intro terminal' hRetired
      cases hRetired
  | terminal terminal signal rest hPoint hTo =>
    subst hTo
    obtain ⟨done, hDone, rfl⟩ := h.retiring terminal _ hPoint
    refine ⟨before, t.terminalBlock (done ++ [signal]), ?_, h.collects, ?_, ?_, ?_, ?_⟩
    · simp [emit, h.sent, terminalBlock]
    · intro x hx
      obtain ⟨s, -, rfl⟩ := List.mem_map.mp hx
      rfl
    · intro hLive
      cases hLive
    · intro terminal' rest' hRetiring
      obtain ⟨rfl, rfl⟩ := Point.retiring.inj hRetiring
      exact ⟨done ++ [signal], by simp [hDone], rfl⟩
    · intro terminal' hRetired
      cases hRetired
  | retired terminal hPoint hTo =>
    subst hTo
    obtain ⟨done, hDone, rfl⟩ := h.retiring terminal _ hPoint
    rw [List.append_nil] at hDone
    subst hDone
    refine ⟨before, _, h.sent, h.collects, h.retires, ?_, ?_, ?_⟩
    · intro hLive
      cases hLive
    · intro terminal' rest' hRetiring
      cases hRetiring
    · intro terminal' hRetired
      cases hRetired
      rfl
  | fail hFrom hTo hSent => exact ⟨before, after, h.of_failed hTo hSent⟩

end Task

section Sample

def hostDescriptor : SourceDescriptor := ⟨"host", .host, .critical, 15⟩

def containerDescriptor : SourceDescriptor := ⟨"container", .harness, .optional, 15⟩

def sessionDescriptor : SourceDescriptor := ⟨"session:acme/sub-1/alpha/uuid-a", .harness, .optional, 30⟩

def noSessions : Signal := .metric ⟨"harnesssphere.harness.sessions", .gauge, 0, none, []⟩

end Sample

end HarnessSphere
