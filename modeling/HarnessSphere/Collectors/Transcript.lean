import Mathlib.Algebra.Group.Prod
import HarnessSphere.Library.Table
import HarnessSphere.Collectors.Text

/-! # Reading one transcript

A transcript is a JSONL file that grows while it is read. The state of a file holds how far it was
consumed and what the consumed records said; one reading takes in the whole lines past the offset.
What it takes in, as a text, determines everything else the reading does.
-/

namespace HarnessSphere

structure FileState where
  offset : Nat
  roles : Counters String
  toolCalls : Nat
  cron : Bool

instance : Inhabited FileState := ⟨⟨0, ∅, 0, false⟩⟩

/-- Records in the sum: the roles they carry and the number of their tool calls. -/
abbrev Tally := Multiset String × ℕ

namespace FileState

def tally (state : FileState) : Tally := (state.roles.bag, state.toolCalls)

/-- A file shorter than its recorded offset starts over. -/
def resetShrunk (state : FileState) (len : Nat) : FileState :=
  if len < state.offset then { (default : FileState) with cron := state.cron } else state

@[simp] theorem tally_default : (default : FileState).tally = 0 := rfl

@[simp] theorem resetShrunk_cron (state : FileState) (len : Nat) :
    (state.resetShrunk len).cron = state.cron := by
  unfold resetShrunk
  split <;> rfl

theorem resetShrunk_of_le {state : FileState} {len : Nat} (h : state.offset ≤ len) :
    state.resetShrunk len = state := if_neg (by omega)

theorem resetShrunk_of_lt {state : FileState} {len : Nat} (h : len < state.offset) :
    state.resetShrunk len = { (default : FileState) with cron := state.cron } := if_pos h

end FileState

section Reading

variable (fromStr : Json.FromStr)

def isCron (fs : Fs) (path : Path) : Bool :=
  match fs.readToString (path.withExtension "meta.json") with
  | none => false
  | some raw =>
    ((fromStr raw).bind fun v => do
      let key ← v.get "key"
      return startsWith (← key.asStr) "agent:cron-").getD false

def readLine (state : FileState) (line : List Char) : FileState :=
  let line := trim line
  if line = [] then state
  else
    match fromStr line with
    | none => state
    | some v =>
      let state :=
        match (v.get "role").bind Json.Value.asStr with
        | none => state
        | some role => { state with roles := state.roles.bump role 1 Nat.one_pos }
      match (v.get "tool_calls").bind Json.Value.asArray with
      | none => state
      | some tc => { state with toolCalls := state.toolCalls + tc.length }

def readNew (fs : Fs) (state : FileState) (path : Path) (len : Nat) : FileState :=
  let state := state.resetShrunk len
  if len ≤ state.offset then state
  else
    match fs.readBytes path state.offset with
    | none => state
    | some bytes =>
      match Utf8.decode bytes with
      | none => state
      | some buf =>
        let complete := Lines.complete '\n' buf
        -- `rfind` finds no newline: no complete line yet
        if complete = [] then state
        else
          let state := (lines complete).foldl (readLine fromStr) state
          { state with offset := state.offset + (Utf8.encode complete).length }

def newText (fs : Fs) (state : FileState) (path : Path) (len : Nat) : List Char :=
  let offset := (state.resetShrunk len).offset
  if len ≤ offset then []
  else (((fs.readBytes path offset).bind Utf8.decode).map (Lines.complete '\n')).getD []

def roleOf (line : List Char) : Option String :=
  if trim line = [] then none
  else (fromStr (trim line)).bind fun v => (v.get "role").bind Json.Value.asStr

def toolCallsOf (line : List Char) : Nat :=
  if trim line = [] then 0
  else (((fromStr (trim line)).bind fun v => (v.get "tool_calls").bind Json.Value.asArray).map
    List.length).getD 0

def record (line : List Char) : Tally :=
  ((roleOf fromStr line).elim 0 fun role => {role}, toolCallsOf fromStr line)

/-- A single pass over the bytes of a file. -/
def tallyOf (bytes : List UInt8) : Tally := Lines.total newline (pieceWeight (record fromStr)) bytes

variable {fromStr}

theorem readLine_frame (state : FileState) (line : List Char) :
    (readLine fromStr state line).offset = state.offset ∧
      (readLine fromStr state line).cron = state.cron := by
  unfold readLine
  dsimp only
  split_ifs
  · exact ⟨rfl, rfl⟩
  · split
    · exact ⟨rfl, rfl⟩
    · split <;> split <;> exact ⟨rfl, rfl⟩

theorem readLine_tally (state : FileState) (line : List Char) :
    (readLine fromStr state line).tally = state.tally + record fromStr line := by
  unfold readLine record roleOf toolCallsOf
  dsimp only
  split_ifs
  · simp [FileState.tally]
  · cases fromStr (trim line) with
    | none => simp [FileState.tally]
    | some v =>
      cases hRole : (v.get "role").bind Json.Value.asStr <;>
        cases hCalls : (v.get "tool_calls").bind Json.Value.asArray <;>
          simp [FileState.tally, hRole, hCalls]

theorem readLines_spec (ls : List (List Char)) (state : FileState) :
    (ls.foldl (readLine fromStr) state).offset = state.offset ∧
      (ls.foldl (readLine fromStr) state).cron = state.cron ∧
      (ls.foldl (readLine fromStr) state).tally = state.tally + (ls.map (record fromStr)).sum := by
  have hFrame : (ls.foldl (readLine fromStr) state).offset = state.offset ∧
      (ls.foldl (readLine fromStr) state).cron = state.cron := by
    induction ls generalizing state with
    | nil => exact ⟨rfl, rfl⟩
    | cons line ls ih =>
      obtain ⟨hOffset, hCron⟩ := ih (readLine fromStr state line)
      obtain ⟨hOffset', hCron'⟩ := @readLine_frame fromStr state line
      exact ⟨hOffset.trans hOffset', hCron.trans hCron'⟩
  exact ⟨hFrame.1, hFrame.2, foldl_sum readLine_tally ls state⟩

theorem readNew_spec (fs : Fs) (state : FileState) (path : Path) (len : Nat) :
    (readNew fromStr fs state path len).offset = (state.resetShrunk len).offset +
        (Utf8.encode (newText fs state path len)).length ∧
      (readNew fromStr fs state path len).cron = state.cron ∧
      (readNew fromStr fs state path len).tally = (state.resetShrunk len).tally +
        tallyOf fromStr (Utf8.encode (newText fs state path len)) := by
  rw [← FileState.resetShrunk_cron state len]
  unfold readNew newText
  dsimp only
  generalize state.resetShrunk len = s
  split_ifs with hLen
  · simp [tallyOf]
  · cases fs.readBytes path s.offset with
    | none => simp [tallyOf]
    | some bytes =>
      cases hDecode : Utf8.decode bytes with
      | none => simp [hDecode, tallyOf]
      | some buf =>
        simp only [Option.bind_some, hDecode, Option.map_some, Option.getD_some]
        split_ifs with hNone
        · simp [hNone, tallyOf]
        · obtain ⟨hOffset, hCron, hTally⟩ :=
            @readLines_spec fromStr (lines (Lines.complete '\n' buf)) s
          refine ⟨by rw [hOffset], hCron, ?_⟩
          rw [tallyOf, total_encode]
          exact hTally

theorem mem_tallyOf_encode {text : List Char} {role : String} :
    role ∈ (tallyOf fromStr (Utf8.encode text)).1 ↔
      ∃ line ∈ lines text, roleOf fromStr line = some role := by
  have hSum (ls : List (List Char)) : (ls.map (record fromStr)).sum.1 =
      (ls.map fun line => (record fromStr line).1).sum := by
    induction ls with
    | nil => rfl
    | cons line ls ih => simp [ih]
  rw [tallyOf, total_encode, hSum, Counters.mem_sum_bags]
  constructor
  · rintro ⟨_, hBag, hRole⟩
    obtain ⟨line, hLine, rfl⟩ := List.mem_map.mp hBag
    refine ⟨line, hLine, ?_⟩
    cases hEq : roleOf fromStr line with
    | none => simp [record, hEq] at hRole
    | some r =>
      simp only [record, hEq, Option.elim_some, Multiset.mem_singleton] at hRole
      rw [hRole]
  · rintro ⟨line, hLine, hRole⟩
    exact ⟨_, List.mem_map.mpr ⟨line, hLine, rfl⟩, by simp [record, hRole]⟩

theorem mem_readNew_roles {fs : Fs} {state : FileState} {path : Path} {len : Nat} {role : String} :
    role ∈ (readNew fromStr fs state path len).roles.bag ↔
      (role ∈ state.roles.bag ∧ state.offset ≤ len) ∨
        ∃ line ∈ lines (newText fs state path len), roleOf fromStr line = some role := by
  have hTally : (readNew fromStr fs state path len).roles.bag = (state.resetShrunk len).roles.bag +
      (tallyOf fromStr (Utf8.encode (newText fs state path len))).1 :=
    congrArg Prod.fst (readNew_spec fs state path len).2.2
  rw [hTally, Multiset.mem_add, mem_tallyOf_encode]
  apply or_congr_left
  obtain h | h := Nat.lt_or_ge len state.offset
  · rw [FileState.resetShrunk_of_lt h]
    constructor
    · intro hRole
      simp [show (default : FileState).roles = ∅ from rfl] at hRole
    · rintro ⟨-, hLen⟩
      omega
  · rw [FileState.resetShrunk_of_le h]
    exact ⟨fun hRole => ⟨hRole, h⟩, And.left⟩

theorem newText_cron (fs : Fs) (state : FileState) (cron : Bool) (path : Path) (len : Nat) :
    newText fs { state with cron := cron } path len = newText fs state path len := by
  have hOffset : (({ state with cron := cron } : FileState).resetShrunk len).offset =
      (state.resetShrunk len).offset := by
    unfold FileState.resetShrunk
    split_ifs <;> rfl
  unfold newText
  rw [hOffset]

theorem encode_newText (fs : Fs) (state : FileState) (path : Path) (len : Nat) :
    Utf8.encode (newText fs state path len) =
      if len ≤ (state.resetShrunk len).offset then []
      else match fs.readBytes path (state.resetShrunk len).offset with
        | none => []
        | some bytes => if (Utf8.decode bytes).isSome then Lines.complete newline bytes else [] := by
  unfold newText
  dsimp only
  split_ifs
  · rfl
  · cases fs.readBytes path (state.resetShrunk len).offset with
    | none => rfl
    | some bytes =>
      cases hDecode : Utf8.decode bytes with
      | none => simp [hDecode]
      | some buf =>
        obtain rfl := Utf8.encode_of_decode hDecode
        simp [Utf8.complete_encode]

end Reading

end HarnessSphere
