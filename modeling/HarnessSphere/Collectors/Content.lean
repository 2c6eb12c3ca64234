import HarnessSphere.Collectors.SinglePass

/-! # What the metrics tell of the contents

Two collections over contents of the same shape, however different their texts, emit the same metrics.
Of a transcript the shape is the role and the number of tool calls of each record; of a graph file, the
type and the number of observations of each record; of a memory file, its size.
-/

namespace HarnessSphere

open SessionCollector

variable (fromStr : Json.FromStr)

def contentAt (fs : Fs) (p : Path) : List UInt8 := (fs.wholeFile p).getD []

def completeLines (bytes : List UInt8) : List (List Char) :=
  ((Utf8.decode bytes).map fun text => lines (Lines.complete '\n' text)).getD []

/-- Every call on the file succeeds, and it holds UTF-8. -/
structure Readable (fs : Fs) (p : Path) : Prop where
  serves : Serves fs p (contentAt fs p)
  valid : Utf8.Valid (contentAt fs p)

def SameRecord (line line' : List Char) : Prop :=
  roleOf fromStr line = roleOf fromStr line' ∧ toolCallsOf fromStr line = toolCallsOf fromStr line'

/-- One tick of two runs: the same transcripts, each with as many complete lines in both, line by line
of the same role and number of tool calls, and with the same cron flag. -/
structure SameShape (w : Workspace) (fs fs' : Fs) : Prop where
  dirs : w.sessionDirs fs = [] ↔ w.sessionDirs fs' = []
  paths : (transcripts fs (w.sessionDirs fs)).Perm (transcripts fs' (w.sessionDirs fs'))
  readable : ∀ p ∈ transcripts fs (w.sessionDirs fs), Readable fs p ∧ Readable fs' p
  lines : ∀ p ∈ transcripts fs (w.sessionDirs fs), List.Forall₂ (SameRecord fromStr)
    (completeLines (contentAt fs p)) (completeLines (contentAt fs' p))
  cron : ∀ p ∈ transcripts fs (w.sessionDirs fs), isCron fromStr fs p = isCron fromStr fs' p

/-- From tick to tick each transcript grows by appending. -/
def GrowsTo (w : Workspace) (fs fs' : Fs) : Prop :=
  ∀ p, p ∈ transcripts fs (w.sessionDirs fs) → p ∈ transcripts fs' (w.sessionDirs fs') →
    contentAt fs p <+: contentAt fs' p

/-- The signals of each tick. -/
def emissions : SessionCollector → List Fs → List (List Signal)
  | _, [] => []
  | c, fs :: ticks => (collect fromStr fs c).2.1 :: emissions (collect fromStr fs c).1 ticks

variable {fromStr}

theorem tallyOf_complete {bytes : List UInt8} (hValid : Utf8.Valid bytes) :
    tallyOf fromStr (Lines.complete newline bytes) =
      ((completeLines bytes).map (record fromStr)).sum := by
  obtain ⟨text, rfl⟩ := hValid
  rw [Utf8.complete_encode, tallyOf, total_encode, completeLines, Utf8.decode_encode]
  rfl

theorem sum_records {ls ls' : List (List Char)} (h : List.Forall₂ (SameRecord fromStr) ls ls') :
    (ls.map (record fromStr)).sum = (ls'.map (record fromStr)).sum := by
  induction h with
  | nil => rfl
  | cons hLine _ ih =>
    rw [List.map_cons, List.sum_cons, List.map_cons, List.sum_cons, ih, record, record, hLine.1,
      hLine.2]

section Reading

/-- Every file on record was read to its last complete line at some earlier tick. -/
def ReadUp (fromStr : Json.FromStr) (past : List Fs) (c : SessionCollector) : Prop :=
  ∀ p state, c.files.lookup p = some state →
    ∃ fs ∈ past, p ∈ c.present fs ∧
      ReadSoFar fromStr (contentAt fs p) (contentAt fs p).length state

theorem ReadSoFar.extend {content grown : List UInt8} {read : Nat} {state : FileState}
    (h : ReadSoFar fromStr content read state) (hGrown : content <+: grown) :
    ReadSoFar fromStr grown read state := by
  refine ⟨h.consumed.extend hGrown, ?_, h.within⟩
  obtain ⟨more, rfl⟩ := hGrown
  rw [List.take_append_of_le_length h.consumed.bound]
  exact h.valid

theorem ReadSoFar.mono {content : List UInt8} {read read' : Nat} {state : FileState}
    (h : ReadSoFar fromStr content read state) (hRead : read ≤ read') :
    ReadSoFar fromStr content read' state := ⟨h.consumed, h.valid, h.within.trans hRead⟩

variable {past : List Fs} {fs : Fs} {c : SessionCollector} {p : Path}

theorem ReadUp.stateAt (h : ReadUp fromStr past c)
    (hGrows : ∀ old ∈ past, GrowsTo c.workspace old fs) (hp : p ∈ c.present fs) :
    ReadSoFar fromStr (contentAt fs p) (contentAt fs p).length (stateAt c p) := by
  rw [HarnessSphere.stateAt]
  cases hLookup : c.files.lookup p with
  | none => exact readSoFar_default _ _
  | some state =>
    obtain ⟨old, hOld, hPresent, hSoFar⟩ := h p state hLookup
    have hGrown := hGrows old hOld p hPresent hp
    exact (hSoFar.extend hGrown).mono hGrown.length_le

/-- A readable transcript is counted in one pass over its complete lines. -/
theorem revisit_readable (h : ReadUp fromStr past c)
    (hGrows : ∀ old ∈ past, GrowsTo c.workspace old fs) (hp : p ∈ c.present fs)
    (hReadable : Readable fs p) :
    ∃ state, revisit fromStr fs p (c.files.lookup p) = some state ∧
      state.cron = ((c.files.lookup p).map FileState.cron).getD (isCron fromStr fs p) ∧
      state.tally = ((completeLines (contentAt fs p)).map (record fromStr)).sum ∧
      ReadSoFar fromStr (contentAt fs p) (contentAt fs p).length state := by
  obtain ⟨m, hMeta, hLen⟩ := hReadable.serves.metadata
  have hWhole : fs.wholeFile p = some (contentAt fs p) := by
    rw [Fs.wholeFile, hReadable.serves.openFile]
    rfl
  have hRead : ∀ bytes, fs.wholeFile p = some bytes →
      bytes <+: contentAt fs p ∧ m.len ≤ bytes.length := by
    intro bytes hBytes
    obtain rfl := Option.some.inj (hWhole.symm.trans hBytes)
    exact ⟨List.prefix_refl _, hLen.le⟩
  have hSoFar := (h.stateAt hGrows hp).cron
    (((c.files.lookup p).map FileState.cron).getD (isCron fromStr fs p))
  have hSeen (offset : Nat) : (if m.len ≤ offset then none else fs.wholeFile p).getD
      ((contentAt fs p).take m.len) = contentAt fs p := by
    rw [hLen, List.take_length, hWhole]
    split_ifs <;> rfl
  have hTally := tally_readNew_undisturbed hSoFar (hSoFar.within.trans hLen.ge)
    (fun _ => hWhole ▸ rfl) hRead (by rw [hSeen]; exact hReadable.valid)
  rw [hSeen, tallyOf_complete hReadable.valid] at hTally
  have hAfter := readSoFar_readNew hSoFar hLen.ge hRead
  rw [revisit, hMeta]
  refine ⟨_, rfl, (readNew_spec _ _ _ _).2.1, hTally, hAfter.mono ?_⟩
  rw [hWhole]
  split_ifs <;> simp

theorem source_collect (fs : Fs) (c : SessionCollector) :
    (collect fromStr fs c).1.source = c.source := by
  obtain ⟨-, e, hCollect⟩ | ⟨-, hCollect⟩ := collect_cases fromStr fs c <;> rw [hCollect]

theorem readUp_collect (h : ReadUp fromStr past c)
    (hGrows : ∀ old ∈ past, GrowsTo c.workspace old fs)
    (hReadable : ∀ p ∈ c.present fs, Readable fs p) :
    ReadUp fromStr (past ++ [fs]) (collect fromStr fs c).1 := by
  have hPresent (fs' : Fs) : (collect fromStr fs c).1.present fs' = c.present fs' := by
    rw [present, present, workspace_collect]
  intro p state hLookup
  simp only [hPresent]
  obtain ⟨-, hOld⟩ | ⟨hp, hNew⟩ := of_lookup_collect hLookup
  · obtain ⟨old, hMem, hSoFar⟩ := h p state hOld
    exact ⟨old, List.mem_append_left _ hMem, hSoFar⟩
  · obtain ⟨state', hState, -, -, hSoFar⟩ := revisit_readable h hGrows hp (hReadable p hp)
    obtain rfl := Option.some.inj (hState.symm.trans hNew)
    exact ⟨fs, by simp, hp, hSoFar⟩

end Reading

section Runs

theorem signals_perm (c : SessionCollector) {t t' : SessionTotals}
    (h : SessionCollector.sum t = SessionCollector.sum t') : (c.signals t).Perm (c.signals t') := by
  obtain ⟨hTally, hSessions⟩ := Prod.mk.inj h
  obtain ⟨hRoles, hToolCalls⟩ := Prod.mk.inj hTally
  obtain ⟨hSessions, hCron⟩ := Prod.mk.inj hSessions
  rw [signals, signals, hToolCalls, hSessions, hCron]
  exact ((Counters.entries_perm hRoles).map _).append_right _

/-- Two runs side by side: each has read all it was shown, and a file on record is on record in both,
with one flag. -/
structure Abreast (fromStr : Json.FromStr) (past : List (Fs × Fs)) (c c' : SessionCollector) :
    Prop where
  workspace : c'.workspace = c.workspace
  source : c'.source = c.source
  readUp : ReadUp fromStr (past.map Prod.fst) c
  readUp' : ReadUp fromStr (past.map Prod.snd) c'
  flags : ∀ p, (c'.files.lookup p).map FileState.cron = (c.files.lookup p).map FileState.cron

variable {past : List (Fs × Fs)} {fs fs' : Fs} {c c' : SessionCollector}

theorem Abreast.dirs_iff (h : Abreast fromStr past c c')
    (hShape : SameShape fromStr c.workspace fs fs') :
    c.workspace.sessionDirs fs = [] ↔ c'.workspace.sessionDirs fs' = [] := by
  rw [h.workspace]
  exact hShape.dirs

theorem Abreast.present_perm (h : Abreast fromStr past c c')
    (hShape : SameShape fromStr c.workspace fs fs') : (c.present fs).Perm (c'.present fs') := by
  rw [present, present, h.workspace]
  exact hShape.paths

/-- What a tick makes of a transcript in the two runs. -/
theorem revisit_abreast (h : Abreast fromStr past c c') (hShape : SameShape fromStr c.workspace fs fs')
    (hGrows : ∀ old ∈ past, GrowsTo c.workspace old.1 fs)
    (hGrows' : ∀ old ∈ past, GrowsTo c.workspace old.2 fs') {p : Path} (hp : p ∈ c.present fs) :
    ∃ state state', revisit fromStr fs p (c.files.lookup p) = some state ∧
      revisit fromStr fs' p (c'.files.lookup p) = some state' ∧
      state'.cron = state.cron ∧ state'.tally = state.tally := by
  have hPresent' : p ∈ c'.present fs' := (h.present_perm hShape).subset hp
  have hPast : ∀ old ∈ past.map Prod.fst, GrowsTo c.workspace old fs := by
    simpa using fun a b hMem => hGrows (a, b) hMem
  have hPast' : ∀ old ∈ past.map Prod.snd, GrowsTo c'.workspace old fs' := by
    rw [h.workspace]
    simpa using fun b a hMem => hGrows' (a, b) hMem
  obtain ⟨hReadable, hReadable'⟩ := hShape.readable p hp
  obtain ⟨state, hState, hCron, hTally, -⟩ := revisit_readable h.readUp hPast hp hReadable
  obtain ⟨state', hState', hCron', hTally', -⟩ :=
    revisit_readable h.readUp' hPast' hPresent' hReadable'
  refine ⟨state, state', hState, hState', ?_, ?_⟩
  · rw [hCron, hCron', h.flags, hShape.cron p hp]
  · rw [hTally, hTally', sum_records (hShape.lines p hp)]

theorem sum_abreast (h : Abreast fromStr past c c') (hShape : SameShape fromStr c.workspace fs fs')
    (hGrows : ∀ old ∈ past, GrowsTo c.workspace old.1 fs)
    (hGrows' : ∀ old ∈ past, GrowsTo c.workspace old.2 fs') :
    SessionCollector.sum (totals (refresh fromStr fs c.files (c.present fs))) =
      SessionCollector.sum (totals (refresh fromStr fs' c'.files (c'.present fs'))) := by
  have hPaths := h.present_perm hShape
  have hMeta (p : Path) (hp : p ∈ c.present fs) : (fs.metadata p).isSome := by
    obtain ⟨m, hMetadata, -⟩ := (hShape.readable p hp).1.serves.metadata
    rw [hMetadata]
    rfl
  have hMeta' (p : Path) (hp : p ∈ c'.present fs') : (fs'.metadata p).isSome := by
    obtain ⟨m, hMetadata, -⟩ := (hShape.readable p (hPaths.symm.subset hp)).2.serves.metadata
    rw [hMetadata]
    rfl
  rw [sum_totals_of_perm (keys_refresh_perm _ (c.present_nodup fs) hMeta),
    sum_totals_of_perm ((keys_refresh_perm _ (c'.present_nodup fs') hMeta').trans hPaths.symm)]
  congr 1
  apply List.map_congr_left
  intro p hp
  obtain ⟨state, state', hState, hState', hCron, hTally⟩ := revisit_abreast h hShape hGrows hGrows' hp
  rw [lookup_refresh fs _ (c.present_nodup fs), lookup_refresh fs' _ (c'.present_nodup fs'), if_pos hp,
    if_pos (hPaths.subset hp), hState, hState', Option.map_some, Option.map_some, share, share, hCron,
    hTally]

theorem emits_abreast (h : Abreast fromStr past c c')
    (hShape : SameShape fromStr c.workspace fs fs')
    (hGrows : ∀ old ∈ past, GrowsTo c.workspace old.1 fs)
    (hGrows' : ∀ old ∈ past, GrowsTo c.workspace old.2 fs') :
    (collect fromStr fs c).2.1.Perm (collect fromStr fs' c').2.1 := by
  by_cases hDirs : c.workspace.sessionDirs fs = []
  · rw [collect, collect, if_pos hDirs, if_pos ((h.dirs_iff hShape).mp hDirs)]
  · have hDirs' : c'.workspace.sessionDirs fs' ≠ [] := (h.dirs_iff hShape).not.mp hDirs
    have hSignals : c'.signals = c.signals := by
      funext t
      simp only [signals, tag, h.workspace, h.source]
    rw [collect_of_dirs hDirs, collect_of_dirs hDirs', hSignals]
    exact signals_perm c (sum_abreast h hShape hGrows hGrows')

theorem flags_abreast (h : Abreast fromStr past c c')
    (hShape : SameShape fromStr c.workspace fs fs')
    (hGrows : ∀ old ∈ past, GrowsTo c.workspace old.1 fs)
    (hGrows' : ∀ old ∈ past, GrowsTo c.workspace old.2 fs') (p : Path) :
    ((collect fromStr fs' c').1.files.lookup p).map FileState.cron =
      ((collect fromStr fs c).1.files.lookup p).map FileState.cron := by
  have hSame : p ∈ c'.present fs' ↔ p ∈ c.present fs := (h.present_perm hShape).mem_iff.symm
  by_cases hp : p ∈ c.present fs
  · obtain ⟨state, state', hState, hState', hCron, -⟩ := revisit_abreast h hShape hGrows hGrows' hp
    rw [lookup_collect hp, lookup_collect (hSame.mpr hp), hState, hState', Option.map_some,
      Option.map_some, hCron]
  · have hp' : p ∉ c'.present fs' := hSame.not.mpr hp
    by_cases hDirs : c.workspace.sessionDirs fs = []
    · rw [collect, collect, if_pos hDirs, if_pos ((h.dirs_iff hShape).mp hDirs)]
      exact h.flags p
    · have hDirs' : c'.workspace.sessionDirs fs' ≠ [] := (h.dirs_iff hShape).not.mp hDirs
      rw [collect_of_dirs hDirs, collect_of_dirs hDirs']
      dsimp only
      rw [lookup_refresh fs _ (c.present_nodup fs), lookup_refresh fs' _ (c'.present_nodup fs'),
        if_neg hp, if_neg hp']

/-- A tick of both runs leaves them side by side. -/
theorem abreast_collect (h : Abreast fromStr past c c')
    (hShape : SameShape fromStr c.workspace fs fs')
    (hGrows : ∀ old ∈ past, GrowsTo c.workspace old.1 fs)
    (hGrows' : ∀ old ∈ past, GrowsTo c.workspace old.2 fs') :
    Abreast fromStr (past ++ [(fs, fs')]) (collect fromStr fs c).1 (collect fromStr fs' c').1 := by
  have hReadUp := readUp_collect h.readUp
    (by simpa using fun a b hMem => hGrows (a, b) hMem) fun p hp => (hShape.readable p hp).1
  have hReadUp' := readUp_collect h.readUp'
    (by rw [h.workspace]; simpa using fun b a hMem => hGrows' (a, b) hMem)
    fun p hp => (hShape.readable p ((h.present_perm hShape).symm.subset hp)).2
  refine ⟨?_, ?_, ?_, ?_, flags_abreast h hShape hGrows hGrows'⟩
  · rw [workspace_collect, workspace_collect, h.workspace]
  · rw [source_collect, source_collect, h.source]
  · simpa using hReadUp
  · simpa using hReadUp'

theorem abreast_new (fromStr : Json.FromStr) (w : Workspace) (source : String)
    (interval : Duration) : Abreast fromStr [] (.new w source interval) (.new w source interval) where
  workspace := rfl
  source := rfl
  readUp p state hLookup := by cases hLookup
  readUp' p state hLookup := by cases hLookup
  flags _ := rfl

theorem emissions_abreast {past ticks : List (Fs × Fs)} {c c' : SessionCollector}
    (h : Abreast fromStr past c c')
    (hShape : ∀ t ∈ ticks, SameShape fromStr c.workspace t.1 t.2)
    (hGrows : (past ++ ticks).Pairwise fun old new => GrowsTo c.workspace old.1 new.1)
    (hGrows' : (past ++ ticks).Pairwise fun old new => GrowsTo c.workspace old.2 new.2) :
    List.Forall₂ List.Perm (emissions fromStr c (ticks.map Prod.fst))
      (emissions fromStr c' (ticks.map Prod.snd)) := by
  induction ticks generalizing past c c' with
  | nil => exact .nil
  | cons t ticks ih =>
    have hTick := hShape t List.mem_cons_self
    have hPast : ∀ old ∈ past, GrowsTo c.workspace old.1 t.1 := fun old hOld =>
      (List.pairwise_append.mp hGrows).2.2 old hOld t List.mem_cons_self
    have hPast' : ∀ old ∈ past, GrowsTo c.workspace old.2 t.2 := fun old hOld =>
      (List.pairwise_append.mp hGrows').2.2 old hOld t List.mem_cons_self
    refine .cons (emits_abreast h hTick hPast hPast') ?_
    apply ih (abreast_collect h hTick hPast hPast')
    · intro later hLater
      rw [workspace_collect]
      exact hShape later (List.mem_cons_of_mem t hLater)
    · rw [workspace_collect, List.append_assoc]
      exact hGrows
    · rw [workspace_collect, List.append_assoc]
      exact hGrows'

end Runs

section Learning

open LearningCollector

/-- What a line of a graph shows: the type and the number of observations of its record, or nothing
where it is blank or malformed. -/
def lineShape (fromStr : Json.FromStr) (line : List Char) : Option (Option String × ℕ) :=
  if trim line = [] then none
  else
    (fromStr (trim line)).map fun v =>
      ((v.get "type").bind Json.Value.asStr,
        (((v.get "observations").bind Json.Value.asArray).map List.length).getD 0)

def graphShape (fromStr : Json.FromStr) (fs : Fs) (path : Path) :
    Option (List (Option (Option String × ℕ))) :=
  (fs.readToString path).map fun raw => (lines raw).map (lineShape fromStr)

def shapeTally : Option (Option String × ℕ) → GraphTally
  | some (some "entity", n) => (1, 0, n)
  | some (some "relation", _) => (0, 1, 0)
  | _ => 0

/-- Two workspaces of one tuple, with skills of the same names, memory files of the same sizes and
graph files that agree line by line in what they show. -/
structure SameMemories (fromStr : Json.FromStr) (fs fs' : Fs) (w w' : Workspace) : Prop where
  tenant : w.tenant = w'.tenant
  subscription : w.subscription = w'.subscription
  agent : w.agent = w'.agent
  user : w.user = w'.user
  skills : ((w.skillDirs fs).flatMap (skillsIn fs)).Perm ((w'.skillDirs fs').flatMap (skillsIn fs'))
  memory : ((w.memoryDirs fs).flatMap (memorySizes fs)).Perm
    ((w'.memoryDirs fs').flatMap (memorySizes fs'))
  graphs : ((w.graphFiles fs).map (graphShape fromStr fs)).Perm
    ((w'.graphFiles fs').map (graphShape fromStr fs'))

theorem graphRecord_eq (line : List Char) :
    graphRecord fromStr line = shapeTally (lineShape fromStr line) := by
  unfold graphRecord lineShape
  split_ifs
  · rfl
  · cases fromStr (trim line) with
    | none => rfl
    | some v =>
      dsimp only [Option.map_some]
      generalize (v.get "type").bind Json.Value.asStr = type
      split <;> simp_all [shapeTally]

theorem graphOf_eq (fs : Fs) (path : Path) :
    graphOf fromStr fs path =
      ((graphShape fromStr fs path).map fun shape => (shape.map shapeTally).sum).getD 0 := by
  have hRecord : graphRecord fromStr = fun line => shapeTally (lineShape fromStr line) := by
    funext line
    exact graphRecord_eq line
  rw [graphOf, graphShape, hRecord]
  cases fs.readToString path with
  | none => rfl
  | some raw =>
    rw [Option.map_some, Option.map_some, Option.getD_some, List.map_map]
    rfl

variable {fs fs' : Fs} {w w' : Workspace}

theorem SameMemories.gather (h : SameMemories fromStr fs fs' w w') (source : String)
    (interval : Duration) :
    gather fromStr fs (.new w source interval) = gather fromStr fs' (.new w' source interval) := by
  have hGraph : ((w.graphFiles fs).map (graphOf fromStr fs)).sum =
      ((w'.graphFiles fs').map (graphOf fromStr fs')).sum := by
    have hMap (fs : Fs) (paths : List Path) : paths.map (graphOf fromStr fs) =
        (paths.map (graphShape fromStr fs)).map fun shape =>
          (shape.map fun shape => (shape.map shapeTally).sum).getD 0 := by
      rw [List.map_map]
      exact List.map_congr_left fun path _ => graphOf_eq fs path
    rw [hMap, hMap]
    exact (h.graphs.map _).sum_eq
  have hNames := insertionSort_eq_of_perm (r := (· ≤ ·)) h.skills
  have hSkills := h.skills.length_eq
  have hFiles := (h.memory.filter (· ≠ 0)).length_eq
  have hBytes := h.memory.sum_eq
  rw [gather_eq, gather_eq]
  simp only [LearningCollector.new, Counts.addSkills, Counts.addMemory, Counts.addGraph, hGraph, hNames, hSkills,
    hFiles, hBytes]

theorem SameMemories.signals (h : SameMemories fromStr fs fs' w w') (source : String)
    (interval : Duration) :
    (LearningCollector.new w source interval).signals =
      (LearningCollector.new w' source interval).signals := by
  funext out
  simp only [LearningCollector.signals, LearningCollector.tag, LearningCollector.new, Workspace.tag, h.tenant,
    h.subscription, h.agent, h.user]

end Learning

/-- What members write does not reach the metrics: two collectors side by side emit the same at every
tick over transcripts of the same shape, and so does the learning collector over workspaces of the same
shape. -/
theorem no_content_reaches_a_signal (fromStr : Json.FromStr) (source : String) (interval : Duration) :
    (∀ (w : Workspace) (ticks : List (Fs × Fs)), (∀ t ∈ ticks, SameShape fromStr w t.1 t.2) →
      (ticks.map Prod.fst).Pairwise (GrowsTo w) → (ticks.map Prod.snd).Pairwise (GrowsTo w) →
        List.Forall₂ List.Perm (emissions fromStr (.new w source interval) (ticks.map Prod.fst))
          (emissions fromStr (.new w source interval) (ticks.map Prod.snd))) ∧
    ∀ (w w' : Workspace) (fs fs' : Fs), SameMemories fromStr fs fs' w w' →
      (LearningCollector.collect fromStr fs (.new w source interval)).2.1.Perm
        (LearningCollector.collect fromStr fs' (.new w' source interval)).2.1 := by
  constructor
  · intro w ticks hShape hGrows hGrows'
    apply emissions_abreast (abreast_new fromStr w source interval) hShape
    · exact List.pairwise_map.mp hGrows
    · exact List.pairwise_map.mp hGrows'
  · intro w w' fs fs' h
    rw [LearningCollector.collect, LearningCollector.collect, h.gather source interval,
      h.signals source interval]

section Sample

def saidLine (content : String) : String :=
  "\x7b\"role\":\"user\",\"content\":\"" ++ content ++ "\"\x7d"

def entityLine (name : String) : String :=
  "\x7b\"type\":\"entity\",\"name\":\"" ++ name ++ "\",\"observations\":[\"seen\"]\x7d"

/-- The parser on the lines of the samples. -/
def contentFromStr : Json.FromStr := fun text =>
  ((["hi", "secret"].map fun content =>
      (saidLine content, Json.Value.object [("role", .string "user"), ("content", .string content)])) ++
    (["Ada", "Grace"].map fun name =>
      (entityLine name, Json.Value.object [("type", .string "entity"), ("name", .string name),
        ("observations", .array [.string "seen"])]))).lookup (String.ofList text)

def said (contents : List String) : Fs :=
  (sampleDisk [("a.jsonl", OsString.ofStr
    (String.join (contents.map fun content => saidLine content ++ "\n")))]).fs

def remembered (note name : String) : Fs :=
  let workspace := sampleWorkspace.root.join "workspace"
  let graph := sampleWorkspace.root.join "memory-graph"
  Disk.fs
    { dirs := []
      files := [((workspace.join "memory").join "note.md", OsString.ofStr note),
        (graph.join "memory.jsonl", OsString.ofStr (entityLine name ++ "\n"))] }

theorem SameShape.of_single {w : Workspace} {fs fs' : Fs} {p : Path}
    (hPresent : transcripts fs (w.sessionDirs fs) = [p])
    (hPresent' : transcripts fs' (w.sessionDirs fs') = [p])
    (hReadable : Readable fs p) (hReadable' : Readable fs' p)
    (hLines : List.Forall₂ (SameRecord fromStr) (completeLines (contentAt fs p))
      (completeLines (contentAt fs' p)))
    (hCron : isCron fromStr fs p = isCron fromStr fs' p) : SameShape fromStr w fs fs' where
  dirs := by
    have hSome {fs : Fs} (h : transcripts fs (w.sessionDirs fs) = [p]) : w.sessionDirs fs ≠ [] := by
      intro hNil
      rw [hNil] at h
      cases h
    exact iff_of_false (hSome hPresent) (hSome hPresent')
  paths := by rw [hPresent, hPresent']
  readable q hq := by
    rw [hPresent, List.mem_singleton] at hq
    exact hq ▸ ⟨hReadable, hReadable'⟩
  lines q hq := by
    rw [hPresent, List.mem_singleton] at hq
    exact hq ▸ hLines
  cron q hq := by
    rw [hPresent, List.mem_singleton] at hq
    exact hq ▸ hCron

theorem GrowsTo.of_single {w : Workspace} {fs fs' : Fs} {p : Path}
    (hPresent : transcripts fs (w.sessionDirs fs) = [p])
    (hGrown : contentAt fs p <+: contentAt fs' p) : GrowsTo w fs fs' := by
  intro q hq _
  rw [hPresent, List.mem_singleton] at hq
  exact hq ▸ hGrown

instance : DecidableRel (SameRecord contentFromStr) := fun line line' =>
  inferInstanceAs (Decidable (_ ∧ toolCallsOf contentFromStr line = toolCallsOf contentFromStr line'))

def saidPath : Path := sampleSessions.join "a.jsonl"

theorem said_content (contents : List String) :
    contentAt (said contents) saidPath = OsString.ofStr
      (String.join (contents.map fun content => saidLine content ++ "\n")) := by
  simp [contentAt, Fs.wholeFile, said, saidPath, sampleDisk, Disk.fs]

theorem said_lines (contents : List String) :
    completeLines (contentAt (said contents) saidPath) = lines (Lines.complete '\n'
      (String.join (contents.map fun content => saidLine content ++ "\n")).toList) := by
  have hDecode : Utf8.decode (contentAt (said contents) saidPath) = _ :=
    (congrArg Utf8.decode (said_content contents)).trans (Utf8.decode_encode _)
  rw [completeLines, hDecode]
  rfl

theorem said_readable {contents : List String}
    (hStat : ((said contents).metadata saidPath).map Metadata.len =
      some (contentAt (said contents) saidPath).length) : Readable (said contents) saidPath := by
  obtain ⟨m, hMeta, hLen⟩ := Option.map_eq_some_iff.mp hStat
  refine ⟨⟨⟨m, hMeta, hLen⟩, ?_⟩, ?_⟩
  · rw [said_content]
    simp [said, saidPath, sampleDisk, Disk.fs]
  · rw [said_content]
    exact ⟨_, rfl⟩

theorem a_secret_does_not_show :
    List.Forall₂ List.Perm
        (emissions contentFromStr sampleCollector [said ["hi"], said ["hi", "hi"]])
        (emissions contentFromStr sampleCollector
          [said ["secret"], said ["secret", "hi"]]) ∧
      (LearningCollector.collect contentFromStr (remembered "abc" "Ada")
          (.new sampleWorkspace "picoclaw" 60)).2.1.Perm
        (LearningCollector.collect contentFromStr (remembered "xyz" "Grace")
          (.new sampleWorkspace "picoclaw" 60)).2.1 := by
  have hOne : SameShape contentFromStr sampleWorkspace (said ["hi"]) (said ["secret"]) :=
    .of_single (p := saidPath) (by decide) (by decide) (said_readable (by decide))
      (said_readable (by decide)) (by rw [said_lines, said_lines]; decide) (by decide)
  have hTwo : SameShape contentFromStr sampleWorkspace (said ["hi", "hi"])
      (said ["secret", "hi"]) :=
    .of_single (p := saidPath) (by decide) (by decide) (said_readable (by decide))
      (said_readable (by decide)) (by rw [said_lines, said_lines]; decide) (by decide)
  have hGrown : GrowsTo sampleWorkspace (said ["hi"]) (said ["hi", "hi"]) :=
    .of_single (p := saidPath) (by decide) (by decide)
  have hGrown' : GrowsTo sampleWorkspace (said ["secret"]) (said ["secret", "hi"]) :=
    .of_single (p := saidPath) (by decide) (by decide)
  have hMemories : SameMemories contentFromStr (remembered "abc" "Ada") (remembered "xyz" "Grace")
      sampleWorkspace sampleWorkspace :=
    ⟨rfl, rfl, rfl, rfl, by decide, by decide, by decide⟩
  obtain ⟨hSession, hLearning⟩ := no_content_reaches_a_signal contentFromStr "picoclaw" 60
  exact ⟨hSession sampleWorkspace [(said ["hi"], said ["secret"]),
      (said ["hi", "hi"], said ["secret", "hi"])] (by simp [hOne, hTwo]) (by simp [hGrown])
      (by simp [hGrown']), hLearning _ _ _ _ hMemories⟩

end Sample

end HarnessSphere
