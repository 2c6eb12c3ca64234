import HarnessSphere.Collectors.Incremental

/-! # Append-only transcripts

Each path has a final content, and the disks of a run show longer and longer parts of it: a tick may
see a file cut anywhere, measure less than it reads, and fail to open, to seek or to read. What the
collector holds is at all times a single pass over the bytes before its offset.
-/

namespace HarnessSphere

open Machine SessionCollector

variable (fromStr : Json.FromStr) (final : Path → List UInt8)

/-- A collector with the length each file had when it was last read. -/
structure Observed where
  collector : SessionCollector
  read : Path → Nat

def stateAt (c : SessionCollector) (p : Path) : FileState := (c.files.lookup p).getD default

def reads (fs : Fs) (c : SessionCollector) (p : Path) (len : Nat) : Option (List UInt8) :=
  if len ≤ ((stateAt c p).resetShrunk len).offset then none else fs.wholeFile p

/-- What a tick sees of a file: what it reads, or what the metadata measures. -/
def seen (fs : Fs) (c : SessionCollector) (p : Path) : List UInt8 :=
  match fs.metadata p with
  | none => []
  | some m => (reads fs c p m.len).getD ((final p).take m.len)

namespace Observed

def start (c : SessionCollector) : Observed := ⟨c, fun _ => 0⟩

def step (o : Observed) (fs : Fs) : Option Observed :=
  some
    { collector := (collect fromStr fs o.collector).1
      read := fun p =>
        if p ∈ o.collector.present fs then
          (((fs.metadata p).bind fun m => reads fs o.collector p m.len).map List.length).getD (o.read p)
        else o.read p }

/-- Files grow by appending: a tick measures at least what was read before, and reads at least what
it measures. -/
def Appending (o : Observed) (fs : Fs) : Prop :=
  ∀ p ∈ o.collector.present fs,
    (∀ m, fs.metadata p = some m → o.read p ≤ m.len ∧ m.len ≤ (final p).length) ∧
      ∀ bytes, fs.wholeFile p = some bytes →
        bytes <+: final p ∧ ∀ m, fs.metadata p = some m → m.len ≤ bytes.length

/-- No call fails, and what is seen of each file ends on a character boundary. -/
def Undisturbed (o : Observed) (fs : Fs) : Prop :=
  o.collector.workspace.sessionDirs fs ≠ [] ∧
    ∀ p ∈ o.collector.present fs,
      (∃ m, fs.metadata p = some m ∧
        ((stateAt o.collector p).offset < m.len → (fs.wholeFile p).isSome)) ∧
      Utf8.Valid (seen final fs o.collector p)

end Observed

/-- One pass over what a tick sees: the complete lines of the conversations, and their number. -/
def singlePass (fs : Fs) (c : SessionCollector) : Tally × ℕ × ℕ :=
  ((c.present fs).map fun p =>
    if ((c.files.lookup p).map FileState.cron).getD (isCron fromStr fs p) then (0, 0, 1)
    else (tallyOf fromStr (Lines.complete newline (seen final fs c p)), 1, 0)).sum

/-- What holds of a file on record. -/
structure ReadSoFar (content : List UInt8) (read : Nat) (state : FileState) : Prop where
  consumed : Consumed fromStr content state
  valid : Utf8.Valid (content.take state.offset)
  within : state.offset ≤ read

variable {fromStr final}

theorem readSoFar_default (content : List UInt8) (read : Nat) :
    ReadSoFar fromStr content read default :=
  ⟨.start content, ⟨[], rfl⟩, Nat.zero_le _⟩

theorem valid_taken {content : List UInt8} {offset : Nat} (h : Utf8.Valid (content.take offset))
    (n : Nat) :
    Utf8.Valid (content.take (offset + (taken ((content.take n).drop offset)).length)) := by
  by_cases hRest : Utf8.Valid ((content.take n).drop offset)
  · rw [taken_of_valid hRest]
    obtain hn | hn := Nat.le_or_le offset n
    · have hTake := Lines.take_complete newline (content.take n) offset
      have hLength := (Lines.complete_isPrefix newline ((content.take n).drop offset)).length_le
      rw [List.length_drop, List.length_take] at hLength
      rw [List.take_take, List.take_take, Nat.min_eq_left hn, Nat.min_eq_left (by omega)] at hTake
      rw [hTake]
      obtain ⟨cs, hcs⟩ := hRest
      rw [← hcs, Utf8.complete_encode]
      exact h.append (Utf8.valid_encode _)
    · rw [List.drop_eq_nil_of_le ((List.length_take_le n content).trans hn)]
      simpa [Lines.complete] using h
  · rw [taken_of_not_valid hRest]
    simpa using h

theorem readSoFar_readNew {fs : Fs} {p : Path} {content : List UInt8} {read len : Nat}
    {state : FileState} (h : ReadSoFar fromStr content read state) (hLen : read ≤ len)
    (hRead : ∀ bytes, fs.wholeFile p = some bytes → bytes <+: content ∧ len ≤ bytes.length) :
    ReadSoFar fromStr content
      (((if len ≤ state.offset then none else fs.wholeFile p).map List.length).getD read)
      (readNew fromStr fs state p len) := by
  have hOffset : state.offset ≤ len := h.within.trans hLen
  obtain ⟨hNew, -, -⟩ := @readNew_spec fromStr fs state p len
  rw [FileState.resetShrunk_of_le hOffset] at hNew
  have hConsumed : Consumed fromStr content (readNew fromStr fs state p len) := by
    apply consumed_readNew h.consumed hOffset
    intro rest hRest
    obtain ⟨bytes, hBytes, rfl⟩ := Option.map_eq_some_iff.mp hRest
    exact ⟨bytes.length, by rw [← List.prefix_iff_eq_take.mp (hRead bytes hBytes).1]⟩
  by_cases hEnd : len ≤ state.offset
  · rw [if_pos hEnd]
    have hSame : (readNew fromStr fs state p len).offset = state.offset := by
      rw [hNew, encode_newText, FileState.resetShrunk_of_le hOffset, if_pos hEnd]
      rfl
    exact ⟨hConsumed, by rw [hSame]; exact h.valid, by rw [hSame]; exact h.within⟩
  · rw [if_neg hEnd]
    cases hWhole : fs.wholeFile p with
    | none =>
      have hSame : (readNew fromStr fs state p len).offset = state.offset := by
        rw [hNew, encode_newText, FileState.resetShrunk_of_le hOffset, if_neg hEnd, Fs.readBytes, hWhole]
        rfl
      exact ⟨hConsumed, by rw [hSame]; exact h.valid, by rw [hSame]; exact h.within⟩
    | some bytes =>
      obtain ⟨hPrefix, hLength⟩ := hRead bytes hWhole
      have hTake := List.prefix_iff_eq_take.mp hPrefix
      have hBytes : fs.readBytes p state.offset = some (bytes.drop state.offset) := by
        rw [Fs.readBytes, hWhole]
        rfl
      rw [encode_newText_of_read hOffset hBytes, if_neg hEnd] at hNew
      refine ⟨hConsumed, ?_, ?_⟩
      · rw [hNew, hTake]
        exact valid_taken h.valid bytes.length
      · have hTaken := taken_length_le (bytes.drop state.offset)
        rw [List.length_drop] at hTaken
        rw [hNew]
        simp only [Option.map_some, Option.getD_some]
        omega

theorem ReadSoFar.cron {content : List UInt8} {read : Nat} {state : FileState}
    (h : ReadSoFar fromStr content read state) (cron : Bool) :
    ReadSoFar fromStr content read { state with cron := cron } :=
  ⟨⟨h.consumed.bound, h.consumed.boundary, h.consumed.counted⟩, h.valid, h.within⟩

def AllReadSoFar (fromStr : Json.FromStr) (final : Path → List UInt8) (o : Observed) : Prop :=
  ∀ p state, o.collector.files.lookup p = some state →
    ReadSoFar fromStr (final p) (o.read p) state

theorem AllReadSoFar.stateAt {o : Observed} (h : AllReadSoFar fromStr final o) (p : Path) :
    ReadSoFar fromStr (final p) (o.read p) (stateAt o.collector p) := by
  unfold HarnessSphere.stateAt
  cases hLookup : o.collector.files.lookup p with
  | none => exact readSoFar_default _ _
  | some state => exact h p state hLookup

theorem reads_eq {fs : Fs} {c : SessionCollector} {p : Path} {len : Nat}
    (h : (stateAt c p).offset ≤ len) :
    reads fs c p len = if len ≤ (stateAt c p).offset then none else fs.wholeFile p := by
  rw [reads, FileState.resetShrunk_of_le h]

theorem allReadSoFar_step {o o' : Observed} {fs : Fs} (h : AllReadSoFar fromStr final o)
    (hAppending : Observed.Appending final o fs) (hStep : Observed.step fromStr o fs = some o') :
    AllReadSoFar fromStr final o' := by
  cases hStep
  intro p state hLookup
  dsimp only at hLookup ⊢
  rcases of_lookup_collect hLookup with ⟨hp, hOld⟩ | ⟨hp, hNew⟩
  · rw [if_neg hp]
    exact h p state hOld
  · obtain ⟨hMeasured, hContent⟩ := hAppending p hp
    rw [if_pos hp]
    cases hMeta : fs.metadata p with
    | none =>
      rw [revisit, hMeta] at hNew
      exact h p state hNew
    | some m =>
      rw [revisit, hMeta] at hNew
      obtain rfl := Option.some.inj hNew
      have hSoFar := h.stateAt p
      rw [Option.bind_some, reads_eq (hSoFar.within.trans (hMeasured m hMeta).1)]
      have hRead : ∀ bytes, fs.wholeFile p = some bytes → bytes <+: final p ∧ m.len ≤ bytes.length :=
        fun bytes hBytes => ⟨(hContent bytes hBytes).1, (hContent bytes hBytes).2 m hMeta⟩
      exact readSoFar_readNew
        (hSoFar.cron (((o.collector.files.lookup p).map FileState.cron).getD (isCron fromStr fs p)))
        (hMeasured m hMeta).1 hRead

theorem flag_of_run {c : SessionCollector} (hFiles : c.files = ∅) {disks : List Fs} {o : Observed}
    (hRun : Run (Observed.step fromStr) (Observed.Appending final) (.start c) disks o) {p : Path}
    {state : FileState} (hLookup : o.collector.files.lookup p = some state) :
    ∃ fs ∈ disks, state.cron = isCron fromStr fs p := by
  induction hRun generalizing state with
  | nil =>
    rw [show (Observed.start c).collector.files = ∅ from hFiles] at hLookup
    cases hLookup
  | @snoc o o' disks fs _ _ hStep ih =>
    cases hStep
    have hOld {state : FileState} (h : o.collector.files.lookup p = some state) :
        ∃ fs' ∈ disks ++ [fs], state.cron = isCron fromStr fs' p := by
      obtain ⟨fs', hfs', hCron⟩ := ih h
      exact ⟨fs', List.mem_append_left _ hfs', hCron⟩
    rcases of_lookup_collect hLookup with ⟨-, hKept⟩ | ⟨-, hNew⟩
    · exact hOld hKept
    · cases hMeta : fs.metadata p with
      | none =>
        rw [revisit, hMeta] at hNew
        exact hOld hNew
      | some m =>
        rw [revisit, hMeta] at hNew
        obtain rfl := Option.some.inj hNew
        rw [(readNew_spec _ _ _ _).2.1]
        cases hSeen : o.collector.files.lookup p with
        | none => exact ⟨fs, by simp, rfl⟩
        | some old => exact hOld hSeen

theorem tally_readNew_undisturbed {fs : Fs} {p : Path} {content : List UInt8} {read len : Nat}
    {state : FileState} (h : ReadSoFar fromStr content read state) (hOffset : state.offset ≤ len)
    (hOpens : state.offset < len → (fs.wholeFile p).isSome)
    (hRead : ∀ bytes, fs.wholeFile p = some bytes → bytes <+: content ∧ len ≤ bytes.length)
    (hValid : Utf8.Valid
      ((if len ≤ state.offset then none else fs.wholeFile p).getD (content.take len))) :
    (readNew fromStr fs state p len).tally = tallyOf fromStr (Lines.complete newline
      ((if len ≤ state.offset then none else fs.wholeFile p).getD (content.take len))) := by
  have hTally := (@readNew_spec fromStr fs state p len).2.2
  rw [FileState.resetShrunk_of_le hOffset] at hTally
  rw [hTally]
  by_cases hEnd : len ≤ state.offset
  · -- nothing new: the offset stands at the measured length, and all before it is complete
    obtain rfl : len = state.offset := by omega
    rw [if_pos hEnd, Option.getD_none, Lines.complete_of_ends h.consumed.boundary, encode_newText,
      FileState.resetShrunk_of_le hOffset, if_pos hEnd, h.consumed.counted]
    exact add_zero _
  · obtain ⟨bytes, hBytes⟩ := Option.isSome_iff_exists.mp (hOpens (by omega))
    obtain ⟨hPrefix, hLength⟩ := hRead bytes hBytes
    rw [if_neg hEnd, hBytes, Option.getD_some] at hValid ⊢
    have hRest : fs.readBytes p state.offset = some (bytes.drop state.offset) := by
      rw [Fs.readBytes, hBytes]
      rfl
    have hHead : bytes.take state.offset = content.take state.offset := by
      obtain ⟨more, rfl⟩ := hPrefix
      exact (List.take_append_of_le_length (by omega)).symm
    have hText : Utf8.Valid (bytes.drop state.offset) := Utf8.Valid.drop (hHead ▸ h.valid) hValid
    have hConsumed := h.consumed.restrict (hOffset.trans hLength)
    rw [← List.prefix_iff_eq_take.mp hPrefix] at hConsumed
    rw [encode_newText_of_read hOffset hRest, if_neg hEnd, taken_of_valid hText]
    exact hConsumed.lacks.symm

theorem revisit_undisturbed {o : Observed} {fs : Fs} {p : Path}
    (h : AllReadSoFar fromStr final o) (hAppending : Observed.Appending final o fs)
    (hUndisturbed : Observed.Undisturbed final o fs) (hp : p ∈ o.collector.present fs) :
    ∃ state, revisit fromStr fs p (o.collector.files.lookup p) = some state ∧
      state.cron = ((o.collector.files.lookup p).map FileState.cron).getD (isCron fromStr fs p) ∧
      state.tally = tallyOf fromStr (Lines.complete newline (seen final fs o.collector p)) := by
  obtain ⟨⟨m, hMeta, hOpens⟩, hValid⟩ := hUndisturbed.2 p hp
  obtain ⟨hMeasured, hContent⟩ := hAppending p hp
  have hSoFar := h.stateAt p
  have hOffset := hSoFar.within.trans (hMeasured m hMeta).1
  have hSeen : seen final fs o.collector p =
      (if m.len ≤ (stateAt o.collector p).offset then none else fs.wholeFile p).getD
        ((final p).take m.len) := by
    rw [seen, hMeta]
    exact congrArg (Option.getD · _) (reads_eq hOffset)
  rw [hSeen] at hValid ⊢
  rw [revisit, hMeta]
  refine ⟨_, rfl, (readNew_spec _ _ _ _).2.1, ?_⟩
  exact tally_readNew_undisturbed
    (hSoFar.cron (((o.collector.files.lookup p).map FileState.cron).getD (isCron fromStr fs p)))
    hOffset hOpens (fun bytes hBytes => ⟨(hContent bytes hBytes).1, (hContent bytes hBytes).2 m hMeta⟩)
    hValid

theorem totals_undisturbed {o : Observed} {fs : Fs}
    (h : AllReadSoFar fromStr final o) (hAppending : Observed.Appending final o fs)
    (hUndisturbed : Observed.Undisturbed final o fs) :
    SessionCollector.sum (totals (refresh fromStr fs o.collector.files (o.collector.present fs))) =
      singlePass fromStr final fs o.collector := by
  have hMeta (p : Path) (hp : p ∈ o.collector.present fs) : (fs.metadata p).isSome := by
    obtain ⟨⟨m, hMetadata, -⟩, -⟩ := hUndisturbed.2 p hp
    rw [hMetadata]
    rfl
  rw [sum_totals_of_perm (keys_refresh_perm _ (o.collector.present_nodup fs) hMeta), singlePass]
  congr 1
  apply List.map_congr_left
  intro p hp
  obtain ⟨state, hState, hCron, hTally⟩ := revisit_undisturbed h hAppending hUndisturbed hp
  rw [lookup_refresh fs _ (o.collector.present_nodup fs), if_pos hp, hState, Option.map_some,
    Option.getD_some, share, hCron, hTally]

/-- Incremental reading counts each record once. Over every run in which the files only grow, and
whatever fails, a file on record stands at its start or just past a newline, counts one pass over
the bytes before its offset and carries the flag it was first seen with; and an undisturbed tick
writes one pass over the complete lines of all it sees. -/
theorem incremental_reading_is_a_single_pass (fromStr : Json.FromStr) (w : Workspace)
    (source : String) (interval : Duration) (final : Path → List UInt8) (disks : List Fs)
    (o : Observed) (hRun : Run (Observed.step fromStr) (Observed.Appending final)
      (.start (.new w source interval)) disks o) :
    (∀ p state, o.collector.files.lookup p = some state →
      Consumed fromStr (final p) state ∧ ∃ fs ∈ disks, state.cron = isCron fromStr fs p) ∧
    ∀ fs, Observed.Appending final o fs → Observed.Undisturbed final o fs →
      ∀ s v, (s, v) ∈ gaugeWrites (collect fromStr fs o.collector).2.1 ↔
        let pass := singlePass fromStr final fs o.collector
        (∃ role, role ∈ pass.1.1 ∧ s = o.collector.messagesSeries role ∧ v = pass.1.1.count role) ∨
          (s = o.collector.toolCallsSeries ∧ v = pass.1.2) ∨
            (s = o.collector.sessionsSeries ∧ v = pass.2.1) ∨
              (s = o.collector.cronSessionsSeries ∧ v = pass.2.2) := by
  have hAll : AllReadSoFar fromStr final o := by
    apply hRun.invariant (I := AllReadSoFar fromStr final)
    · intro p state hLookup
      cases hLookup
    · intro o fs o' h hAppending hStep
      exact allReadSoFar_step h hAppending hStep
  constructor
  · intro p state hLookup
    exact ⟨(hAll p state hLookup).consumed, flag_of_run rfl hRun hLookup⟩
  · intro fs hAppending hUndisturbed s v
    rw [collect_of_dirs hUndisturbed.1, mem_writes_signals,
      ← totals_undisturbed hAll hAppending hUndisturbed]
    rfl

theorem Observed.appending_of_single (o : Observed) (fs : Fs) (p : Path) (m : Metadata)
    (bytes : List UInt8) (hPresent : o.collector.present fs = [p]) (hMeta : fs.metadata p = some m)
    (hWhole : fs.wholeFile p = some bytes) (hMeasured : o.read p ≤ m.len ∧ m.len ≤ bytes.length)
    (hPrefix : bytes <+: final p) : Appending final o fs := by
  intro q hq
  rw [hPresent, List.mem_singleton] at hq
  subst hq
  constructor
  · intro m' hm'
    obtain rfl := Option.some.inj (hMeta.symm.trans hm')
    exact ⟨hMeasured.1, hMeasured.2.trans hPrefix.length_le⟩
  · intro bytes' hBytes'
    obtain rfl := Option.some.inj (hWhole.symm.trans hBytes')
    refine ⟨hPrefix, fun m' hm' => ?_⟩
    obtain rfl := Option.some.inj (hMeta.symm.trans hm')
    exact hMeasured.2

def twoMessages : List UInt8 :=
  OsString.ofStr (roleLine "user" ++ "\n" ++ roleLine "assistant" ++ "\n")

def growing (n : Nat) : Fs := (sampleDisk [("a.jsonl", twoMessages.take n)]).fs

def firstTick : Observed :=
  (Observed.step sampleFromStr (.start sampleCollector) (growing 20)).getD (.start sampleCollector)

theorem two_messages_are_counted_once :
    (firstTick.collector.messagesSeries "assistant", 1) ∈
      gaugeWrites (collect sampleFromStr (growing 37) firstTick.collector).2.1 := by
  have hFirst : Observed.Appending (fun _ => twoMessages) (.start sampleCollector) (growing 20) :=
    Observed.appending_of_single _ _ (sampleSessions.join "a.jsonl") ⟨false, true, 20⟩
      (twoMessages.take 20) (by decide) (by decide) (by decide) (by decide) (by decide)
  have hSecond : Observed.Appending (fun _ => twoMessages) firstTick (growing 37) :=
    Observed.appending_of_single _ _ (sampleSessions.join "a.jsonl") ⟨false, true, 37⟩
      twoMessages (by decide) (by decide) (by decide) (by decide) (by decide)
  have hUndisturbed : Observed.Undisturbed (fun _ => twoMessages) firstTick (growing 37) := by
    refine ⟨by decide, fun p hp => ?_⟩
    rw [show firstTick.collector.present (growing 37) = [sampleSessions.join "a.jsonl"] by decide,
      List.mem_singleton] at hp
    subst hp
    exact ⟨⟨⟨false, true, 37⟩, by decide, fun _ => by decide⟩, Utf8.decode_isSome_iff.mp (by decide)⟩
  exact ((incremental_reading_is_a_single_pass sampleFromStr sampleWorkspace "picoclaw" 60
    (fun _ => twoMessages) [growing 20] firstTick (.single hFirst rfl)).2 (growing 37) hSecond
    hUndisturbed _ _).mpr (.inl ⟨"assistant", by decide, rfl, by decide⟩)

end HarnessSphere
