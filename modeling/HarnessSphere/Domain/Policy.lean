import Mathlib.Data.List.DropRight
import HarnessSphere.Domain.Ports

/-! # Circuit breaker and criticality

The failure counter is a `u32` that saturates, the backoff doubles with it up to a minute. The
lemmas give the breaker a closed form in the number of consecutive failures.
-/

namespace HarnessSphere

inductive BreakerState where
  | closed | opened
  deriving DecidableEq, Repr

def u32Max : Nat := 2 ^ 32 - 1

/-- `u32::saturating_add`. -/
def saturatingAdd (a b : UInt32) : UInt32 :=
  if a.toNat + b.toNat ≤ u32Max then a + b else UInt32.ofNat u32Max

/-- `Duration::saturating_mul`, on the seconds of a `u64`. -/
def Duration.saturatingMul (d : Duration) (factor : UInt32) : Duration :=
  min (d * factor.toNat) (2 ^ 64 - 1)

structure CircuitBreaker where
  state : BreakerState
  consecutiveFailures : UInt32
  critThreshold : UInt32
  baseBackoff : Duration
  maxBackoff : Duration
  deriving DecidableEq, Repr

namespace CircuitBreaker

def new (critThreshold : UInt32) : CircuitBreaker where
  state := .closed
  consecutiveFailures := 0
  critThreshold := critThreshold
  baseBackoff := 1
  maxBackoff := 60

def isOpen (b : CircuitBreaker) : Bool := b.state = .opened

def recordSuccess (b : CircuitBreaker) : CircuitBreaker :=
  { b with consecutiveFailures := 0, state := .closed }

def recordFailure (b : CircuitBreaker) : CircuitBreaker :=
  { b with consecutiveFailures := saturatingAdd b.consecutiveFailures 1, state := .opened }

def tripOpen (b : CircuitBreaker) : CircuitBreaker := { b with state := .opened }

def backoff (b : CircuitBreaker) : Duration :=
  if b.consecutiveFailures = 0 then b.baseBackoff
  else
    let shift := min b.consecutiveFailures 16 - 1
    let factor : UInt64 := 1 <<< shift.toUInt64
    min (b.baseBackoff.saturatingMul factor.toUInt32) b.maxBackoff

@[simp] theorem isOpen_recordSuccess (b : CircuitBreaker) : b.recordSuccess.isOpen = false := rfl

@[simp] theorem isOpen_recordFailure (b : CircuitBreaker) : b.recordFailure.isOpen = true := rfl

@[simp] theorem isOpen_tripOpen (b : CircuitBreaker) : b.tripOpen.isOpen = true := rfl

end CircuitBreaker

inductive FailureAction where
  | degrade | fatal
  deriving DecidableEq, Repr

def classifyFailure (criticality : Criticality) (breaker : CircuitBreaker) : FailureAction :=
  match criticality with
  | .optional => .degrade
  | .critical => if breaker.consecutiveFailures ≥ breaker.critThreshold then .fatal else .degrade

theorem classifyFailure_optional (breaker : CircuitBreaker) :
    classifyFailure .optional breaker = .degrade := rfl

example : ((CircuitBreaker.new 3).recordFailure.recordFailure).backoff = 2 := by decide

/-- The number of failures a history ends with. -/
def streak {α : Type*} (failed : α → Bool) (history : List α) : ℕ :=
  (history.rtakeWhile failed).length

/-- What a source waits at a tick: nothing after a success, one second if only its probe has opened
the breaker, and after failures twice as long each time, up to a minute. -/
def retryDelay {α : Type*} (failed : α → Bool) (tripped : Bool) (history : List α) : Duration :=
  if history.isEmpty then if tripped then 1 else 0
  else if streak failed history = 0 then 0
  else min 60 (2 ^ (streak failed history - 1))

section Streak

variable {α : Type*} {failed : α → Bool}

theorem streak_concat_of_failed (history : List α) {a : α} (ha : failed a) :
    streak failed (history ++ [a]) = streak failed history + 1 := by
  simp [streak, List.rtakeWhile_concat_pos _ _ _ ha]

theorem streak_concat_of_not_failed (history : List α) {a : α} (ha : ¬ failed a) :
    streak failed (history ++ [a]) = 0 := by
  simp [streak, List.rtakeWhile_concat_neg _ _ _ ha]

theorem retryDelay_pos_iff {tripped : Bool} {history : List α} :
    0 < retryDelay failed tripped history ↔
      (if history.isEmpty then tripped else decide (0 < streak failed history)) := by
  have hPow : 0 < 2 ^ (streak failed history - 1) := Nat.two_pow_pos _
  unfold retryDelay
  split_ifs with hEmpty hTripped hZero
  · simp [hTripped]
  · simp [hTripped]
  · simp [hZero]
  · exact iff_of_true (Nat.lt_min.mpr ⟨by decide, hPow⟩) (decide_eq_true (Nat.pos_of_ne_zero hZero))

end Streak

theorem toNat_saturatingAdd (a b : UInt32) :
    (saturatingAdd a b).toNat = min (a.toNat + b.toNat) u32Max := by
  unfold saturatingAdd
  split
  · rename_i h
    rw [UInt32.toNat_add, Nat.min_eq_left h]
    apply Nat.mod_eq_of_lt
    unfold u32Max at h
    omega
  · rename_i h
    rw [Nat.min_eq_right (by omega)]
    decide

namespace CircuitBreaker

/-- The shift count of `backoff`. -/
def shift (b : CircuitBreaker) : UInt32 := min b.consecutiveFailures 16 - 1

theorem toNat_shift {b : CircuitBreaker} (h : b.consecutiveFailures ≠ 0) :
    b.shift.toNat = min b.consecutiveFailures.toNat 16 - 1 := by
  have hPos : b.consecutiveFailures.toNat ≠ 0 := fun hZero => h (UInt32.toNat_inj.mp hZero)
  have hMin : (min b.consecutiveFailures 16).toNat = min b.consecutiveFailures.toNat 16 := by
    change (if b.consecutiveFailures ≤ 16 then _ else _ : UInt32).toNat = _
    rw [Nat.min_def, apply_ite UInt32.toNat]
    rfl
  rw [shift, UInt32.toNat_sub_of_le, hMin]
  · rfl
  · rw [UInt32.le_iff_toNat_le, hMin]
    exact Nat.le_min.mpr ⟨Nat.one_le_iff_ne_zero.mpr hPos, by decide⟩

/-- A shift by less than 32 loses no bit, and neither does the cast that follows it. -/
theorem toNat_factor {shift : UInt32} (h : shift.toNat < 32) :
    ((1 : UInt64) <<< shift.toUInt64).toNat = 2 ^ shift.toNat ∧
      ((1 : UInt64) <<< shift.toUInt64).toUInt32.toNat = 2 ^ shift.toNat := by
  have hPow : 2 ^ shift.toNat < 2 ^ 32 := Nat.pow_lt_pow_right (by decide) h
  have hFactor : ((1 : UInt64) <<< shift.toUInt64).toNat = 2 ^ shift.toNat := by
    rw [UInt64.toNat_shiftLeft, UInt32.toNat_toUInt64, Nat.mod_eq_of_lt (h.trans (by decide)),
      show (1 : UInt64).toNat = 1 from rfl, Nat.one_shiftLeft]
    exact Nat.mod_eq_of_lt (hPow.trans (by decide))
  refine ⟨hFactor, ?_⟩
  rw [UInt64.toNat_toUInt32, hFactor]
  exact Nat.mod_eq_of_lt hPow

theorem backoff_eq {b : CircuitBreaker} (hBase : b.baseBackoff = 1) (hMax : b.maxBackoff = 60) :
    b.backoff = if b.consecutiveFailures = 0 then 1
      else min 60 (2 ^ (b.consecutiveFailures.toNat - 1)) := by
  unfold backoff
  split_ifs with hZero
  · exact hBase
  · have hShift := toNat_shift hZero
    have hLt : b.shift.toNat < 32 := by omega
    have hPow : 2 ^ b.shift.toNat < 2 ^ 32 := Nat.pow_lt_pow_right (by decide) hLt
    have hProduct : b.baseBackoff.saturatingMul ((1 : UInt64) <<< b.shift.toUInt64).toUInt32 =
        2 ^ b.shift.toNat := by
      rw [Duration.saturatingMul, (toNat_factor hLt).2, hBase, one_mul]
      exact Nat.min_eq_left (Nat.le_sub_one_of_lt (hPow.trans (by decide)))
    change min (b.baseBackoff.saturatingMul ((1 : UInt64) <<< b.shift.toUInt64).toUInt32)
      b.maxBackoff = _
    rw [hProduct, hMax, Nat.min_comm, hShift]
    obtain hSmall | hBig := Nat.le_or_le b.consecutiveFailures.toNat 16
    · rw [Nat.min_eq_left hSmall]
    · have hCap : 2 ^ 6 ≤ 2 ^ (b.consecutiveFailures.toNat - 1) :=
        Nat.pow_le_pow_right (by decide) (by omega)
      rw [Nat.min_eq_right hBig, Nat.min_eq_left (by decide), Nat.min_eq_left (by omega)]

variable {α : Type*} {failed : α → Bool} {critThreshold : UInt32} {tripped : Bool} {history : List α}

/-- The breaker after a history of results, where the probe may have opened it at the start. -/
structure Tracks (failed : α → Bool) (critThreshold : UInt32) (tripped : Bool) (history : List α)
    (b : CircuitBreaker) : Prop where
  failures : b.consecutiveFailures.toNat = min (streak failed history) u32Max
  isOpen : b.isOpen = if history.isEmpty then tripped else decide (0 < streak failed history)
  critThreshold : b.critThreshold = critThreshold
  baseBackoff : b.baseBackoff = 1
  maxBackoff : b.maxBackoff = 60

theorem tracks_new (failed : α → Bool) (critThreshold : UInt32) :
    Tracks failed critThreshold false [] (new critThreshold) := ⟨rfl, rfl, rfl, rfl, rfl⟩

theorem Tracks.tripOpen {b : CircuitBreaker} (h : Tracks failed critThreshold tripped [] b) :
    Tracks failed critThreshold true [] b.tripOpen :=
  ⟨h.failures, rfl, h.critThreshold, h.baseBackoff, h.maxBackoff⟩

theorem Tracks.success {b : CircuitBreaker} (h : Tracks failed critThreshold tripped history b)
    {a : α} (ha : ¬ failed a) :
    Tracks failed critThreshold tripped (history ++ [a]) b.recordSuccess := by
  have hStreak := streak_concat_of_not_failed history ha
  refine ⟨?_, ?_, h.critThreshold, h.baseBackoff, h.maxBackoff⟩
  · rw [hStreak]
    rfl
  · simp [hStreak]

theorem Tracks.failure {b : CircuitBreaker} (h : Tracks failed critThreshold tripped history b)
    {a : α} (ha : failed a) :
    Tracks failed critThreshold tripped (history ++ [a]) b.recordFailure := by
  have hStreak := streak_concat_of_failed history ha
  refine ⟨?_, ?_, h.critThreshold, h.baseBackoff, h.maxBackoff⟩
  · rw [recordFailure, toNat_saturatingAdd, h.failures, hStreak]
    change min (min _ _ + 1) _ = _
    omega
  · simp [hStreak]

/-- No threshold lies above the value at which the counter saturates. -/
theorem Tracks.fatal_iff {b : CircuitBreaker} (h : Tracks failed critThreshold tripped history b) :
    classifyFailure .critical b = .fatal ↔ critThreshold.toNat ≤ streak failed history := by
  have hThreshold : critThreshold.toNat ≤ u32Max := Nat.le_sub_one_of_lt critThreshold.toNat_lt
  have hLe : b.consecutiveFailures ≥ b.critThreshold ↔ critThreshold.toNat ≤ streak failed history := by
    rw [ge_iff_le, UInt32.le_iff_toNat_le, h.failures, h.critThreshold, Nat.le_min]
    exact and_iff_left hThreshold
  rw [classifyFailure, ← hLe]
  split_ifs <;> simp_all

theorem Tracks.delay {b : CircuitBreaker} (h : Tracks failed critThreshold tripped history b) :
    (if b.isOpen then b.backoff else 0) = retryDelay failed tripped history := by
  have hZero : b.consecutiveFailures = 0 ↔ streak failed history = 0 := by
    rw [← UInt32.toNat_inj, h.failures]
    change min _ u32Max = 0 ↔ _
    unfold u32Max
    omega
  rw [h.isOpen, backoff_eq h.baseBackoff h.maxBackoff, h.failures, retryDelay]
  simp only [hZero]
  cases history with
  | nil => simp [streak]
  | cons a history =>
    obtain hNone | hSome := Nat.eq_zero_or_pos (streak failed (a :: history))
    · simp [hNone]
    · simp only [List.isEmpty_cons, Bool.false_eq_true, if_false, hSome, decide_true, if_true,
        Nat.ne_of_gt hSome]
      obtain hSmall | hBig := Nat.le_or_le (streak failed (a :: history)) u32Max
      · rw [Nat.min_eq_left hSmall]
      · have hCap : 2 ^ 6 ≤ 2 ^ (u32Max - 1) := Nat.pow_le_pow_right (by decide) (by decide)
        have hMore : 2 ^ (u32Max - 1) ≤ 2 ^ (streak failed (a :: history) - 1) :=
          Nat.pow_le_pow_right (by decide) (by omega)
        rw [Nat.min_eq_right hBig, Nat.min_eq_left (by omega), Nat.min_eq_left (by omega)]

theorem Tracks.isOpen_iff {b : CircuitBreaker} (h : Tracks failed critThreshold tripped history b) :
    b.isOpen ↔ 0 < retryDelay failed tripped history := by
  rw [h.isOpen, retryDelay_pos_iff]

end CircuitBreaker

end HarnessSphere
