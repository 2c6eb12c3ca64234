import HarnessSphere.Library.Machine
import HarnessSphere.Collectors.Series

/-! # Resumed reading against a single pass

A reading takes in the whole lines past the offset, all of them or, where the bytes are not text,
none. What was taken in over a run is compared with one pass over the bytes: they agree while files
only grow and hold text. A rewritten file and a stray byte are the two ways to disagree.
-/

namespace HarnessSphere

open Machine
open LearningCollector (countGraph graphOf graphRecord)

variable (fromStr : Json.FromStr)

/-- What a file state claims about a content: it stands after the whole lines before its offset. -/
abbrev Consumed (content : List UInt8) (state : FileState) : Prop :=
  Lines.Consumed newline (pieceWeight (record fromStr)) content state.offset state.tally

def taken (rest : List UInt8) : List UInt8 :=
  if (Utf8.decode rest).isSome then Lines.complete newline rest else []

/-- A disk with one content under every path. -/
def serving (bytes : List UInt8) : Fs where
  readDir _ := none
  metadata _ := some ⟨false, true, bytes.length⟩
  openFile _ := some ⟨true, some bytes⟩

variable {fromStr}

theorem taken_nil : taken [] = [] := by decide

theorem taken_of_valid {rest : List UInt8} (h : Utf8.Valid rest) :
    taken rest = Lines.complete newline rest := if_pos (Utf8.decode_isSome_iff.mpr h)

theorem taken_of_not_valid {rest : List UInt8} (h : ¬ Utf8.Valid rest) : taken rest = [] :=
  if_neg fun hSome => h (Utf8.decode_isSome_iff.mp hSome)

theorem taken_length_le (rest : List UInt8) : (taken rest).length ≤ rest.length := by
  unfold taken
  split_ifs
  · exact (Lines.complete_isPrefix newline rest).length_le
  · exact Nat.zero_le _

theorem encode_newText_of_read {fs : Fs} {state : FileState} {path : Path} {len : Nat}
    {bytes : List UInt8} (hLen : state.offset ≤ len)
    (hRead : fs.readBytes path state.offset = some (bytes.drop state.offset)) :
    Utf8.encode (newText fs state path len) =
      if len ≤ state.offset then [] else taken (bytes.drop state.offset) := by
  rw [encode_newText, FileState.resetShrunk_of_le hLen, hRead]
  rfl

theorem consumed_taken {content : List UInt8} {state : FileState} (h : Consumed fromStr content state)
    (n : Nat) :
    Lines.Consumed newline (pieceWeight (record fromStr)) content
      (state.offset + (taken ((content.take n).drop state.offset)).length)
      (state.tally + tallyOf fromStr (taken ((content.take n).drop state.offset))) := by
  by_cases hValid : Utf8.Valid ((content.take n).drop state.offset)
  · rw [taken_of_valid hValid]
    obtain hn | hn := Nat.le_or_le state.offset n
    · exact (h.restrict hn).resume.extend (List.take_prefix n content)
    · rw [List.drop_eq_nil_of_le ((List.length_take_le n content).trans hn)]
      simpa [Lines.complete, tallyOf] using h
  · rw [taken_of_not_valid hValid]
    simpa [tallyOf] using h

theorem consumed_readNew {fs : Fs} {content : List UInt8} {state : FileState} {path : Path}
    {len : Nat} (h : Consumed fromStr content state) (hLen : state.offset ≤ len)
    (hRead : ∀ rest, fs.readBytes path state.offset = some rest →
      ∃ n, rest = (content.take n).drop state.offset) :
    Consumed fromStr content (readNew fromStr fs state path len) := by
  obtain ⟨hOffset, -, hTally⟩ := @readNew_spec fromStr fs state path len
  rw [FileState.resetShrunk_of_le hLen] at hOffset hTally
  unfold Consumed
  rw [hOffset, hTally]
  cases hBytes : fs.readBytes path state.offset with
  | none =>
    rw [encode_newText, FileState.resetShrunk_of_le hLen, hBytes]
    simpa [tallyOf] using h
  | some rest =>
    obtain ⟨n, rfl⟩ := hRead rest hBytes
    rw [encode_newText_of_read hLen hBytes]
    split_ifs
    · simpa [tallyOf] using h
    · exact consumed_taken h n

theorem readBytes_serving (bytes : List UInt8) (path : Path) (offset : Nat) :
    (serving bytes).readBytes path offset = some (bytes.drop offset) := rfl

theorem tally_readNew_serving {content : List UInt8} {state : FileState} (path : Path)
    (hLen : state.offset ≤ content.length) :
    (readNew fromStr (serving content) state path content.length).tally =
      state.tally + tallyOf fromStr (taken (content.drop state.offset)) := by
  obtain ⟨-, -, hTally⟩ := @readNew_spec fromStr (serving content) state path content.length
  rw [hTally, FileState.resetShrunk_of_le hLen,
    encode_newText_of_read hLen (readBytes_serving content path state.offset)]
  split_ifs with hEnd
  · rw [List.drop_eq_nil_of_le hEnd, taken_nil]
  · rfl

section Malformed

variable (fromStr)

structure Tail where
  content : List UInt8
  state : FileState

def Tail.step (path : Path) (t : Tail) (chunk : List UInt8) : Option Tail :=
  let content := t.content ++ chunk
  some ⟨content, readNew fromStr (serving content) t.state path content.length⟩

/-- The counts after the reading are the sum over the complete lines, each weighed by itself. -/
def CountsLines (path : Path) (t : Tail) (chunk : List UInt8) : Prop :=
  (readNew fromStr (serving (t.content ++ chunk)) t.state path (t.content ++ chunk).length).tally =
    tallyOf fromStr (Lines.complete newline (t.content ++ chunk))

/-- The unread bytes are text, or their complete lines weigh nothing. -/
def UnreadIsText (t : Tail) (chunk : List UInt8) : Prop :=
  Utf8.Valid ((t.content ++ chunk).drop t.state.offset) ∨
    tallyOf fromStr (Lines.complete newline ((t.content ++ chunk).drop t.state.offset)) = 0

variable {fromStr}

theorem Tail.step_consumed {path : Path} {t t' : Tail} {chunk : List UInt8}
    (h : Consumed fromStr t.content t.state) (hStep : Tail.step fromStr path t chunk = some t') :
    Consumed fromStr t'.content t'.state := by
  cases hStep
  have hBound := h.bound
  apply consumed_readNew (h.extend (List.prefix_append _ _))
  · rw [List.length_append]
    omega
  · intro rest hRest
    rw [readBytes_serving] at hRest
    exact ⟨(t.content ++ chunk).length, by rw [List.take_length]; exact (Option.some.inj hRest).symm⟩

theorem countsLines_iff {path : Path} {t : Tail} {chunk : List UInt8}
    (h : Consumed fromStr t.content t.state) :
    CountsLines fromStr path t chunk ↔ UnreadIsText fromStr t chunk := by
  have hGrown := h.extend (List.prefix_append t.content chunk)
  unfold CountsLines UnreadIsText
  generalize t.content ++ chunk = content at hGrown ⊢
  have hLacks : tallyOf fromStr (Lines.complete newline content) = t.state.tally +
      tallyOf fromStr (Lines.complete newline (content.drop t.state.offset)) := hGrown.lacks
  rw [tally_readNew_serving path hGrown.bound, hLacks, add_right_inj]
  by_cases hValid : Utf8.Valid (content.drop t.state.offset)
  · simp [taken_of_valid hValid, hValid]
  · rw [taken_of_not_valid hValid]
    simp only [hValid, false_or]
    exact eq_comm

theorem graphOf_serving (bytes : List UInt8) (path : Path) :
    graphOf fromStr (serving bytes) path =
      if (Utf8.decode bytes).isSome then
        Lines.total newline (pieceWeight (graphRecord fromStr)) bytes
      else 0 := by
  have hRead : (serving bytes).readToString path = Utf8.decode bytes := rfl
  unfold graphOf
  rw [hRead]
  cases hDecode : Utf8.decode bytes with
  | none => rfl
  | some raw =>
    obtain rfl := Utf8.encode_of_decode hDecode
    simp [total_encode]

/-- The lines of a transcript are counted each by itself in exactly those runs that never have to
read a byte that is not text in front of a line that counts; the lines of a graph file are where the
file is text or counts nothing. -/
theorem records_counted_independently_iff (fromStr : Json.FromStr) (path : Path) :
    (∀ chunks t, Run (Tail.step fromStr path) (CountsLines fromStr path) ⟨[], default⟩ chunks t ↔
      Run (Tail.step fromStr path) (UnreadIsText fromStr) ⟨[], default⟩ chunks t) ∧
    ∀ bytes out, (countGraph fromStr (serving bytes) out path).graph =
        out.graph + Lines.total newline (pieceWeight (graphRecord fromStr)) bytes ↔
      Utf8.Valid bytes ∨
        Lines.total newline (pieceWeight (graphRecord fromStr)) bytes = 0 := by
  constructor
  · intro chunks t
    apply run_congr (I := fun t => Consumed fromStr t.content t.state)
    · exact .start []
    · intro t chunk t' h _ hStep
      exact Tail.step_consumed h hStep
    · intro t chunk h
      exact countsLines_iff h
  · intro bytes out
    rw [LearningCollector.graph_countGraph _ out path, graphOf_serving, add_right_inj]
    by_cases hValid : Utf8.Valid bytes
    · simp [Utf8.decode_isSome_iff.mpr hValid, hValid]
    · rw [if_neg fun hSome => hValid (Utf8.decode_isSome_iff.mp hSome)]
      simp only [hValid, false_or]
      exact eq_comm

/-- A line that starts with a byte no text contains, and a message after it. -/
theorem a_stray_byte_hides_a_message :
    ¬ CountsLines sampleFromStr [] ⟨[], default⟩
      ([0xFF, newline] ++ OsString.ofStr (roleLine "user" ++ "\n")) := by
  unfold CountsLines
  decide

end Malformed

section Rewritten

structure Serves (fs : Fs) (path : Path) (content : List UInt8) : Prop where
  metadata : ∃ m, fs.metadata path = some m ∧ m.len = content.length
  openFile : fs.openFile path = some ⟨true, some content⟩

def tallyAt (c : SessionCollector) (path : Path) : Option Tally :=
  (c.files.lookup path).map FileState.tally

theorem Serves.readBytes {fs : Fs} {path : Path} {content : List UInt8} (h : Serves fs path content)
    (offset : Nat) : fs.readBytes path offset = some (content.drop offset) := by
  simp [Fs.readBytes, Fs.wholeFile, h.openFile]

theorem tally_readNew_of_serves {fs : Fs} {path : Path} {content : List UInt8}
    (h : Serves fs path content) (state : FileState) :
    (readNew fromStr fs state path content.length).tally =
      (state.resetShrunk content.length).tally +
        tallyOf fromStr (taken (content.drop (state.resetShrunk content.length).offset)) := by
  obtain ⟨-, -, hTally⟩ := @readNew_spec fromStr fs state path content.length
  rw [hTally, encode_newText, h.readBytes]
  split_ifs with hEnd
  · rw [List.drop_eq_nil_of_le hEnd, taken_nil]
  · rfl

theorem tallyAt_collect {fs : Fs} {path : Path} {content : List UInt8} {c : SessionCollector}
    (hPresent : path ∈ c.present fs) (h : Serves fs path content) :
    tallyAt (SessionCollector.collect fromStr fs c).1 path =
      let state := ((c.files.lookup path).getD default).resetShrunk content.length
      some (state.tally + tallyOf fromStr (taken (content.drop state.offset))) := by
  obtain ⟨m, hMeta, hLen⟩ := h.metadata
  unfold tallyAt
  rw [SessionCollector.lookup_collect hPresent, SessionCollector.revisit, hMeta]
  dsimp only
  rw [Option.map_some, hLen, tally_readNew_of_serves h]
  unfold FileState.resetShrunk
  split_ifs <;> rfl

theorem tallyAt_collect_new {fs : Fs} {path : Path} {content : List UInt8} {c : SessionCollector}
    (hPresent : path ∈ c.present fs) (hFiles : c.files = ∅) (hValid : Utf8.Valid content)
    (h : Serves fs path content) :
    tallyAt (SessionCollector.collect fromStr fs c).1 path =
      some (tallyOf fromStr (Lines.complete newline content)) := by
  rw [tallyAt_collect hPresent h, hFiles]
  simp [FileState.resetShrunk, show (default : FileState).offset = 0 from rfl, taken_of_valid hValid]

/-- The lines of a content that begin before the offset hold the records counted so far. Of the last
one the reader sees what follows the offset, as a line of its own; where that starts inside a
character, it sees nothing of the content. -/
def HoldsTheCounted (fromStr : Json.FromStr) (state : FileState) (content : List UInt8) : Prop :=
  let line := Lines.firstLine newline (content.drop state.offset)
  if (Utf8.decode (content.drop state.offset)).isSome then
    tallyOf fromStr (Lines.complete newline (content.take state.offset ++ line)) =
      state.tally + tallyOf fromStr (Lines.complete newline line)
  else tallyOf fromStr (Lines.complete newline content) = state.tally

theorem holdsTheCounted_iff {state : FileState} {content : List UInt8} :
    HoldsTheCounted fromStr state content ↔ state.tally +
      tallyOf fromStr (taken (content.drop state.offset)) =
        tallyOf fromStr (Lines.complete newline content) := by
  unfold HoldsTheCounted taken
  dsimp only
  split_ifs
  · -- the lines that begin past the offset weigh the same on both sides
    obtain ⟨rest, hRest⟩ := @Lines.total_complete_append _ _ newline _ _ (pieceWeight (record fromStr))
      (content.drop state.offset)
    have hAll := hRest (content.take state.offset)
    have hPast := hRest []
    rw [List.take_append_drop] at hAll
    rw [List.nil_append, List.nil_append] at hPast
    unfold tallyOf
    rw [hAll, hPast, ← add_assoc, add_left_inj]
    exact eq_comm
  · rw [show tallyOf fromStr [] = 0 from rfl, add_zero]
    exact eq_comm

/-- After a rewrite the counts are those of a new collector exactly if the new content is shorter
than what was consumed, or if its lines up to the old offset count what the old ones counted. -/
theorem rewritten_transcript_rederived_iff (fromStr : Json.FromStr) (w : Workspace) (source : String)
    (interval : Duration) (disks : List Fs) (fs : Fs) (path : Path) (old : FileState)
    (new : List UInt8)
    (hTracked : (SessionCollector.watch fromStr (.new w source interval) disks).collector.files.lookup
      path = some old)
    (hPresent : path ∈ (SessionCollector.new w source interval).present fs)
    (hValid : Utf8.Valid new) (hServes : Serves fs path new) :
    tallyAt (SessionCollector.collect fromStr fs
        (SessionCollector.watch fromStr (.new w source interval) disks).collector).1 path =
        tallyAt (SessionCollector.collect fromStr fs (.new w source interval)).1 path ↔
      new.length < old.offset ∨ HoldsTheCounted fromStr old new := by
  have hWorkspace := @SessionCollector.workspace_watch fromStr (.new w source interval) disks
  have hPresent' : path ∈ (SessionCollector.watch fromStr (.new w source interval)
      disks).collector.present fs := by
    unfold SessionCollector.present at hPresent ⊢
    rwa [hWorkspace]
  rw [tallyAt_collect hPresent' hServes, tallyAt_collect_new hPresent rfl hValid hServes, hTracked,
    Option.some.injEq, Option.getD_some, holdsTheCounted_iff]
  obtain hShort | hLong := Nat.lt_or_ge new.length old.offset
  · rw [FileState.resetShrunk_of_lt hShort]
    simp [hShort, show (default : FileState).offset = 0 from rfl, taken_of_valid hValid, FileState.tally,
      show (default : FileState).roles = ∅ from rfl, show (default : FileState).toolCalls = 0 from rfl]
  · rw [FileState.resetShrunk_of_le hLong]
    simp [Nat.not_lt.mpr hLong]

def assistantMessage : Fs :=
  (sampleDisk [("a.jsonl", OsString.ofStr (roleLine "assistant" ++ "\n"))]).fs

theorem a_shorter_rewrite_is_rederived :
    tallyAt (SessionCollector.collect sampleFromStr oneUserMessage
        (SessionCollector.watch sampleFromStr sampleCollector [assistantMessage]).collector).1
        (sampleSessions.join "a.jsonl") =
      tallyAt (SessionCollector.collect sampleFromStr oneUserMessage sampleCollector).1
        (sampleSessions.join "a.jsonl") := by
  have hTracked : ((SessionCollector.watch sampleFromStr sampleCollector
      [assistantMessage]).collector.files.lookup (sampleSessions.join "a.jsonl")).isSome := by decide
  have hServes : Serves oneUserMessage (sampleSessions.join "a.jsonl")
      (OsString.ofStr (roleLine "user" ++ "\n")) := ⟨⟨⟨false, true, 16⟩, by decide, by decide⟩, by decide⟩
  refine (rewritten_transcript_rederived_iff sampleFromStr sampleWorkspace "picoclaw" 60
    [assistantMessage] oneUserMessage _ _ _ (Option.some_get hTracked).symm (by decide)
    ⟨(roleLine "user" ++ "\n").toList, rfl⟩ hServes).mpr (.inl ?_)
  decide +revert

theorem a_longer_rewrite_keeps_the_old_counts :
    ¬ OsString.ofStr (roleLine "user" ++ "\n") <+: OsString.ofStr (roleLine "assistant" ++ "\n") ∧
      tallyAt (SessionCollector.collect sampleFromStr assistantMessage
          (SessionCollector.watch sampleFromStr sampleCollector [oneUserMessage]).collector).1
          (sampleSessions.join "a.jsonl") = some ({"user"}, 0) ∧
      tallyAt (SessionCollector.collect sampleFromStr assistantMessage sampleCollector).1
          (sampleSessions.join "a.jsonl") = some ({"assistant"}, 0) := by
  decide

end Rewritten

end HarnessSphere
