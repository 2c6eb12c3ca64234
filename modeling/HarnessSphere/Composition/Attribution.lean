import HarnessSphere.Collectors.Series
import HarnessSphere.Composition.Walk
import Mathlib.Data.Set.Card

/-! # Which collector counts which transcript

The collectors of all workspaces of one scan share out the transcripts of the tree: a file of the
right name in the right place belongs to one of them, and no other file to any.
-/

namespace HarnessSphere

namespace OsString

/-- A name has the extension that comes after its last dot, unless nothing comes before that dot. -/
theorem rsplitFileAtDot_eq_iff {file ext : OsString} (hExt : dot ∉ ext) (hNe : ext ≠ []) :
    (∃ stem, rsplitFileAtDot file = (some stem, some ext)) ↔
      ∃ stem, stem ≠ [] ∧ file = stem ++ dot :: ext := by
  constructor
  · rintro ⟨stem, h⟩
    simp only [rsplitFileAtDot] at h
    split_ifs at h with hParent hHead hHidden
    · exact absurd h (by simp)
    · exact absurd h (by simp)
    · exact absurd h (by simp)
    · obtain ⟨tail, hFile, -⟩ := Lines.complete_split dot file
      obtain hNil | ⟨before, hBefore⟩ := Lines.complete_ends dot file
      · exact absurd hNil hHead
      · simp only [Prod.mk.injEq, Option.some.injEq] at h
        have hTail : tail = ext := by
          rw [← h.2]
          nth_rewrite 2 [hFile]
          rw [List.drop_left]
        refine ⟨before, ?_, ?_⟩
        · rintro rfl
          exact hHidden hBefore
        · rw [hFile, hBefore, hTail, List.append_assoc, List.singleton_append]
  · rintro ⟨stem, hStem, rfl⟩
    have hSplit : stem ++ dot :: ext = (stem ++ [dot]) ++ ext := by simp
    have hHead : Lines.complete dot (stem ++ dot :: ext) = stem ++ [dot] := by
      rw [hSplit]
      exact Lines.complete_eq (.inr ⟨stem, rfl⟩) hExt
    have hParent : stem ++ dot :: ext ≠ [dot, dot] := by
      intro h
      have hLength := congrArg List.length h
      obtain ⟨a, stem, rfl⟩ := List.exists_cons_of_ne_nil hStem
      obtain ⟨b, ext, rfl⟩ := List.exists_cons_of_ne_nil hNe
      simp only [List.length_append, List.length_cons, List.length_nil] at hLength
      omega
    refine ⟨stem, ?_⟩
    rw [rsplitFileAtDot, if_neg hParent, hHead]
    have hDot : stem ++ [dot] ≠ [dot] := by simpa using hStem
    simp only [hDot, if_false, List.append_eq_nil_iff, List.cons_ne_self, and_false,
      List.dropLast_concat]
    rw [hSplit, List.drop_left]

end OsString

def jsonl : OsString := OsString.ofStr ".jsonl"

theorem Path.extension_append (dir : Path) (file : OsString) :
    Path.extension (dir ++ [file]) =
      (OsString.rsplitFileAtDot file).1.bind fun _ => (OsString.rsplitFileAtDot file).2 := by
  rw [Path.extension, Path.fileName, List.getLast?_concat, Option.filter_some]
  by_cases hFile : file ≠ [] ∧ file ≠ [OsString.dot, OsString.dot]
  · rw [if_pos (decide_eq_true hFile)]
    rfl
  · -- such a name has no extension either way
    rw [not_and_or, not_not, not_not] at hFile
    obtain rfl | rfl := hFile <;> rfl

theorem extension_jsonl_iff (dir : Path) (file : OsString) :
    (Path.extension (dir ++ [file])).bind OsString.toStr = some "jsonl" ↔
      ∃ stem, stem ≠ [] ∧ file = stem ++ jsonl := by
  have hDot : jsonl = OsString.dot :: OsString.ofStr "jsonl" := by decide
  rw [hDot, ← OsString.rsplitFileAtDot_eq_iff (by decide) (by decide), Path.extension_append]
  simp only [Option.bind_eq_some_iff, OsString.toStr_eq_some_iff]
  constructor
  · rintro ⟨ext, ⟨stem, hStem, hExt⟩, rfl⟩
    exact ⟨stem, Prod.ext hStem hExt⟩
  · rintro ⟨stem, h⟩
    exact ⟨_, ⟨stem, by rw [h], by rw [h]⟩, rfl⟩

/-- A whole tree without symbolic links: an entry is what its path leads to. -/
structure Fs.Plain (fs : Fs) (root : Path) : Prop extends fs.Whole root where
  there : ∀ p, root <+: p → ∀ e ∈ fs.entries p, (fs.metadata (e.path p)).isSome
  fileType : ∀ p, root <+: p → ∀ e ∈ fs.entries p, e.fileType = some (fs.isDir (e.path p))

/-- A file is what is there and is no directory. -/
def Fs.holdsFile (fs : Fs) (p : Path) : Bool := (fs.metadata p).any fun m => !m.isDir

theorem transcriptPath_eq_some_iff {dir p : Path} {e : DirEntry} :
    transcriptPath dir e = some p ↔
      p = e.path dir ∧ e.fileType.getD false = false ∧
        ∃ stem, stem ≠ [] ∧ e.fileName = stem ++ jsonl := by
  rw [← extension_jsonl_iff dir, transcriptPath]
  change (if e.fileType.getD false then none
    else if (e.path dir).extension.bind OsString.toStr ≠ some "jsonl" then none
    else some (e.path dir)) = some p ↔ _ ∧ _ ∧ (e.path dir).extension.bind OsString.toStr = _
  split_ifs with hType hExt
  · simp [hType]
  · simp [hExt]
  · simp only [ne_eq, not_not] at hExt
    simp [hType, hExt, eq_comm]

namespace Workspace

/-- The workspace of a tuple, where the tree has it. -/
def under (dataRoot : Path) (tenant subscription agent user : String) : Workspace where
  tenant := tenant
  subscription := subscription
  agent := agent
  user := user
  root := (((((((dataRoot.join "tenants").join tenant).join "subscriptions").join
    subscription).join "agents").join agent).join "users").join user

theorem eq_under_of_rooted {dataRoot : Path} {v : Workspace} (h : v.Rooted dataRoot) :
    v = under dataRoot v.tenant v.subscription v.agent v.user := by
  obtain ⟨t, s, a, u, root⟩ := v
  exact congrArg (Workspace.mk t s a u) h

variable (v : Workspace) (name : String) (stem : OsString)

def sessionsDir : Path := (v.root.join name).join "sessions"

def transcript : Path := v.sessionsDir name ++ [stem ++ jsonl]

end Workspace

theorem Fs.holdsFile_iff {fs : Fs} {p : Path} :
    fs.holdsFile p ↔ (fs.metadata p).isSome ∧ fs.isDir p = false := by
  rw [Fs.holdsFile, Fs.isDir]
  cases fs.metadata p <;> simp

section Present

variable {fs : Fs} {root : Path} {v : Workspace}

theorem mem_sessionDirs (hWhole : fs.Whole root) (hBelow : root <+: v.root) {dir : Path} :
    dir ∈ v.sessionDirs fs ↔
      fs.isDir dir ∧ ∃ name, isWorkspaceName name ∧ dir = v.sessionsDir name := by
  rw [Workspace.sessionDirs, mem_childrenWith]
  simp only [OsString.toStr_eq_some_iff]
  constructor
  · rintro ⟨e, -, ⟨name, hName, hNamed⟩, rfl, hDir⟩
    refine ⟨hDir, name, hNamed, ?_⟩
    rw [DirEntry.path, hName]
    rfl
  · rintro ⟨hDir, name, hNamed, rfl⟩
    have hParent := hWhole.isDir_of_child (below_join hBelow name) (Fs.isDir_isSome hDir)
    obtain ⟨e, he, hName⟩ := hWhole.listed_of_isDir hBelow hParent
    refine ⟨e, he, ⟨name, hName, hNamed⟩, ?_, hDir⟩
    rw [DirEntry.path, hName]
    rfl

theorem mem_transcripts (hPlain : fs.Plain root) {dir p : Path} (hBelow : root <+: dir) :
    p ∈ (fs.entries dir).filterMap (transcriptPath dir) ↔
      fs.holdsFile p ∧ ∃ stem, stem ≠ [] ∧ p = dir ++ [stem ++ jsonl] := by
  rw [List.mem_filterMap]
  simp only [transcriptPath_eq_some_iff, Fs.holdsFile_iff]
  constructor
  · rintro ⟨e, he, rfl, hType, stem, hStem, hName⟩
    rw [hPlain.fileType dir hBelow e he] at hType
    exact ⟨⟨hPlain.there dir hBelow e he, hType⟩, stem, hStem, by rw [DirEntry.path, hName]⟩
  · rintro ⟨⟨hThere, hDir⟩, stem, hStem, rfl⟩
    obtain ⟨e, he, hName⟩ := hPlain.listed dir _ hBelow hThere
    have hPath : e.path dir = dir ++ [stem ++ jsonl] := by rw [DirEntry.path, hName]
    refine ⟨e, he, hPath.symm, ?_, stem, hStem, hName⟩
    rw [hPlain.fileType dir hBelow e he, hPath]
    exact hDir

theorem below_sessionsDir (hBelow : root <+: v.root) (name : String) :
    root <+: v.sessionsDir name := below_join (below_join hBelow name) "sessions"

/-- The transcripts of a workspace are the files of the right name in one of its session directories,
and nothing deeper. -/
theorem mem_present (hPlain : fs.Plain root) (hBelow : root <+: v.root) {source : String}
    {interval : Duration} {p : Path} :
    p ∈ (SessionCollector.new v source interval).present fs ↔
      fs.holdsFile p ∧ ∃ name stem, isWorkspaceName name ∧ stem ≠ [] ∧ p = v.transcript name stem := by
  rw [SessionCollector.present, transcripts, List.mem_flatMap]
  constructor
  · rintro ⟨dir, hDir, hp⟩
    obtain ⟨-, name, hNamed, rfl⟩ := (mem_sessionDirs hPlain.toWhole hBelow).mp hDir
    obtain ⟨hFile, stem, hStem, rfl⟩ := (mem_transcripts hPlain (below_sessionsDir hBelow name)).mp hp
    exact ⟨hFile, name, stem, hNamed, hStem, rfl⟩
  · rintro ⟨hFile, name, stem, hNamed, hStem, rfl⟩
    have hTranscript := (mem_transcripts hPlain (below_sessionsDir hBelow name)).mpr
      ⟨hFile, stem, hStem, rfl⟩
    have hDir := hPlain.isDir_of_child (below_sessionsDir hBelow name) (Fs.holdsFile_iff.mp hFile).1
    exact ⟨v.sessionsDir name,
      (mem_sessionDirs hPlain.toWhole hBelow).mpr ⟨hDir, name, hNamed, rfl⟩, hTranscript⟩

/-- The table of a new collector holds the transcripts of its first tick. -/
theorem keys_collect_perm (fromStr : Json.FromStr) (hPlain : fs.Plain root) (hBelow : root <+: v.root)
    (source : String) (interval : Duration) :
    (SessionCollector.collect fromStr fs (.new v source interval)).1.files.keys.Perm
      ((SessionCollector.new v source interval).present fs) := by
  have hNodup := (SessionCollector.new v source interval).present_nodup fs
  obtain ⟨hDirs, e, hCollect⟩ | ⟨-, hCollect⟩ :=
    SessionCollector.collect_cases fromStr fs (.new v source interval)
  · rw [hCollect, SessionCollector.present_of_no_dirs hDirs]
    exact .refl _
  · rw [hCollect]
    exact SessionCollector.keys_refresh_perm _ hNodup fun p hp =>
      (Fs.holdsFile_iff.mp ((mem_present hPlain hBelow).mp hp).1).1

end Present

/-- The collector of a workspace, as discovery starts it, has the path in its table after a tick. -/
def Tracks (fromStr : Json.FromStr) (fs : Fs) (source : String) (interval : Duration) (v : Workspace)
    (p : Path) : Prop :=
  p ∈ (SessionCollector.collect fromStr fs (.new v source interval)).1.files.keys

/-- A path of the right shape, for a tuple, a workspace directory and a name. -/
def IsTranscript (dataRoot p : Path) : Prop :=
  ∃ tenant subscription agent user name stem, isWorkspaceName name ∧ stem ≠ [] ∧
    p = (Workspace.under dataRoot tenant subscription agent user).transcript name stem

section Tracks

variable {fromStr : Json.FromStr} {fs : Fs} {dataRoot : Path} {source : String}
  {interval : Duration} {v : Workspace} {p : Path}

theorem below_of_mem_discover (h : v ∈ discover fs dataRoot) : dataRoot <+: v.root := by
  have hLevel : (v.usersDir dataRoot, v.user) ∈ v.levels dataRoot := by simp [Workspace.levels]
  rw [(mem_discover.mp h).2]
  exact below_join (Workspace.below_of_level hLevel) v.user

theorem tracks_iff (hPlain : fs.Plain dataRoot) (hBelow : dataRoot <+: v.root) :
    Tracks fromStr fs source interval v p ↔
      fs.holdsFile p ∧ ∃ name stem, isWorkspaceName name ∧ stem ≠ [] ∧ p = v.transcript name stem := by
  rw [Tracks, (keys_collect_perm fromStr hPlain hBelow source interval).mem_iff,
    mem_present hPlain hBelow]

theorem ofStr_injective {a b : String} (h : OsString.ofStr a = OsString.ofStr b) : a = b := by
  have hStr := congrArg OsString.toStr h
  rwa [OsString.toStr_ofStr, OsString.toStr_ofStr, Option.some.injEq] at hStr

theorem eq_of_root {w : Workspace} (hv : v.Rooted dataRoot) (hw : w.Rooted dataRoot)
    (h : v.root = w.root) : v = w := by
  have hPaths : (v.usersDir dataRoot).join v.user = (w.usersDir dataRoot).join w.user :=
    hv.symm.trans (h.trans hw)
  simp only [Workspace.usersDir, Workspace.agentsDir, Workspace.subscriptionsDir,
    Workspace.tenantsDir, Path.join, List.append_assoc, List.append_cancel_left_eq,
    List.cons_append, List.nil_append, List.cons.injEq, true_and, and_true] at hPaths
  obtain ⟨hTenant, hSubscription, hAgent, hUser⟩ := hPaths
  rw [Workspace.eq_under_of_rooted hv, Workspace.eq_under_of_rooted hw, ofStr_injective hTenant,
    ofStr_injective hSubscription, ofStr_injective hAgent, ofStr_injective hUser]

/-- The path of a transcript tells the workspace. -/
theorem transcript_injective {w : Workspace} (hv : v.Rooted dataRoot) (hw : w.Rooted dataRoot)
    {name name' : String} {stem stem' : OsString}
    (h : v.transcript name stem = w.transcript name' stem') : v = w := by
  simp only [Workspace.transcript, Workspace.sessionsDir, Path.join, List.append_assoc] at h
  exact eq_of_root hv hw (List.append_inj_left' h (by simp))

/-- The workspace of a transcript is found. -/
theorem mem_discover_of_transcript (hWhole : fs.Whole dataRoot) (hRooted : v.Rooted dataRoot)
    {name : String} {stem : OsString} (hFile : fs.holdsFile (v.transcript name stem)) :
    v ∈ discover fs dataRoot := by
  refine (mem_discover_iff_waypoints hWhole).mpr ⟨hRooted, fun p hp => ?_⟩
  obtain ⟨rest, hRest⟩ := Workspace.prefix_of_waypoint hp
  have hTranscript : v.transcript name stem =
      p ++ (rest ++ [OsString.ofStr name, OsString.ofStr "sessions", stem ++ jsonl]) := by
    rw [← List.append_assoc, hRest, ← hRooted]
    simp [Workspace.transcript, Workspace.sessionsDir, Path.join]
  rw [hTranscript] at hFile
  exact hWhole.isDir_above (Workspace.below_of_waypoint hp)
    (List.append_ne_nil_of_right_ne_nil rest (List.cons_ne_nil _ _)) (Fs.holdsFile_iff.mp hFile).1

/-- A transcript is tracked by the workspace of its tuple and by no other. -/
theorem tracks_transcript_iff (hPlain : fs.Plain dataRoot) {tenant subscription agent user : String}
    {name : String} {stem : OsString} (hNamed : isWorkspaceName name) (hStem : stem ≠ [])
    (hFile : fs.holdsFile
      ((Workspace.under dataRoot tenant subscription agent user).transcript name stem)) :
    (v ∈ discover fs dataRoot ∧ Tracks fromStr fs source interval v
      ((Workspace.under dataRoot tenant subscription agent user).transcript name stem)) ↔
      v = Workspace.under dataRoot tenant subscription agent user := by
  have hRooted : (Workspace.under dataRoot tenant subscription agent user).Rooted dataRoot := rfl
  constructor
  · rintro ⟨hv, hTracks⟩
    obtain ⟨-, name', stem', -, -, hPath⟩ :=
      (tracks_iff hPlain (below_of_mem_discover hv)).mp hTracks
    exact (transcript_injective hRooted (mem_discover.mp hv).2 hPath).symm
  · rintro rfl
    have hv := mem_discover_of_transcript hPlain.toWhole hRooted hFile
    exact ⟨hv, (tracks_iff hPlain (below_of_mem_discover hv)).mpr
      ⟨hFile, name, stem, hNamed, hStem, rfl⟩⟩

theorem isTranscript_of_tracks (hPlain : fs.Plain dataRoot) (hv : v ∈ discover fs dataRoot)
    (hTracks : Tracks fromStr fs source interval v p) :
    fs.holdsFile p ∧ IsTranscript dataRoot p := by
  obtain ⟨hFile, name, stem, hNamed, hStem, rfl⟩ :=
    (tracks_iff hPlain (below_of_mem_discover hv)).mp hTracks
  refine ⟨hFile, v.tenant, v.subscription, v.agent, v.user, name, stem, hNamed, hStem, ?_⟩
  rw [← Workspace.eq_under_of_rooted (mem_discover.mp hv).2]

end Tracks

section Count

variable (fromStr : Json.FromStr) (fs : Fs) (dataRoot : Path) (source : String) (interval : Duration)

/-- What the collectors of a scan have in their tables after one tick each. -/
def trackedPaths : List Path :=
  (discover fs dataRoot).flatMap fun v =>
    (SessionCollector.collect fromStr fs (.new v source interval)).1.files.keys

variable {fromStr fs dataRoot source interval}

theorem mem_trackedPaths (hPlain : fs.Plain dataRoot) {p : Path} :
    p ∈ trackedPaths fromStr fs dataRoot source interval ↔
      fs.holdsFile p ∧ IsTranscript dataRoot p := by
  rw [trackedPaths, List.mem_flatMap]
  constructor
  · rintro ⟨v, hv, hTracks⟩
    exact isTranscript_of_tracks hPlain hv hTracks
  · rintro ⟨hFile, tenant, subscription, agent, user, name, stem, hNamed, hStem, rfl⟩
    exact ⟨_, (tracks_transcript_iff hPlain hNamed hStem hFile).mpr rfl⟩

theorem trackedPaths_nodup (hPlain : fs.Plain dataRoot) :
    (trackedPaths fromStr fs dataRoot source interval).Nodup := by
  refine List.nodup_flatMap.mpr ⟨fun v _ => AList.keys_nodup _, ?_⟩
  refine (discover_nodup fs dataRoot).imp_of_mem ?_
  intro v w hv hw hNe
  refine List.disjoint_left.mpr fun p hp hp' => hNe ?_
  obtain ⟨-, name, stem, -, -, rfl⟩ := (tracks_iff hPlain (below_of_mem_discover hv)).mp hp
  obtain ⟨-, name', stem', -, -, hPath⟩ := (tracks_iff hPlain (below_of_mem_discover hw)).mp hp'
  exact transcript_injective (mem_discover.mp hv).2 (mem_discover.mp hw).2 hPath

theorem encard_transcripts (hPlain : fs.Plain dataRoot) :
    {p | fs.holdsFile p ∧ IsTranscript dataRoot p}.encard =
      (trackedPaths fromStr fs dataRoot source interval).length := by
  have hSet : {p | fs.holdsFile p ∧ IsTranscript dataRoot p} =
      ((trackedPaths fromStr fs dataRoot source interval).toFinset : Set Path) := by
    ext p
    rw [Finset.mem_coe, List.mem_toFinset, mem_trackedPaths hPlain, Set.mem_ofPred_eq]
  rw [hSet, Set.encard_coe_eq_coe_finsetCard,
    List.toFinset_card_of_nodup (trackedPaths_nodup hPlain)]

/-- Each file on record is a session or a cron session. -/
theorem sessions_add_cronSessions (files : Table Path FileState) :
    (SessionCollector.totals files).sessions + (SessionCollector.totals files).cronSessions =
      files.keys.length := by
  have hSum := congrArg (fun x => x.2.1 + x.2.2) (SessionCollector.sum_totals files)
  have hShares (es : List (Σ _ : Path, FileState)) :
      ((es.map fun e => SessionCollector.share e.2).sum.2.1 +
        (es.map fun e => SessionCollector.share e.2).sum.2.2) = es.length := by
    induction es with
    | nil => rfl
    | cons e es ih =>
      have hShare : (SessionCollector.share e.2).2.1 + (SessionCollector.share e.2).2.2 = 1 := by
        rw [SessionCollector.share]
        cases e.2.cron <;> rfl
      simp only [List.map_cons, List.sum_cons, List.length_cons, Prod.snd_add, Prod.fst_add]
      omega
  rw [AList.keys, List.keys, List.length_map, ← hShares]
  exact hSum

theorem sessions_written (c : SessionCollector) (t : SessionTotals) (x : F64) :
    (c.sessionsSeries, x) ∈ gaugeWrites (c.signals t) ↔ x = t.sessions := by
  rw [SessionCollector.mem_writes_signals]
  simp [SessionCollector.messagesSeries, SessionCollector.toolCallsSeries,
    SessionCollector.sessionsSeries, SessionCollector.cronSessionsSeries, Workspace.series_eq_iff]

theorem cronSessions_written (c : SessionCollector) (t : SessionTotals) (x : F64) :
    (c.cronSessionsSeries, x) ∈ gaugeWrites (c.signals t) ↔ x = t.cronSessions := by
  rw [SessionCollector.mem_writes_signals]
  simp [SessionCollector.messagesSeries, SessionCollector.toolCallsSeries,
    SessionCollector.sessionsSeries, SessionCollector.cronSessionsSeries, Workspace.series_eq_iff]

theorem sum_sessions :
    ((discover fs dataRoot).map fun v =>
      (SessionCollector.totals
        (SessionCollector.collect fromStr fs (.new v source interval)).1.files).sessions +
      (SessionCollector.totals
        (SessionCollector.collect fromStr fs (.new v source interval)).1.files).cronSessions).sum =
      (trackedPaths fromStr fs dataRoot source interval).length := by
  rw [trackedPaths, List.length_flatMap]
  congr 1
  exact List.map_congr_left fun v _ => sessions_add_cronSessions _

end Count

/-- Of all collectors of a scan, exactly the one of the tuple tracks a transcript, and none tracks
anything else. So, where each workspace has a session directory, the values written for sessions and
cron sessions after one tick each add up to the number of the transcripts. -/
theorem each_transcript_has_one_collector (fromStr : Json.FromStr) (fs : Fs) (dataRoot : Path)
    (source : String) (interval : Duration) (hPlain : fs.Plain dataRoot) :
    (∀ tenant subscription agent user name stem, isWorkspaceName name → stem ≠ [] →
      let owner := Workspace.under dataRoot tenant subscription agent user
      fs.holdsFile (owner.transcript name stem) →
      ∀ v, (v ∈ discover fs dataRoot ∧
        Tracks fromStr fs source interval v (owner.transcript name stem)) ↔ v = owner) ∧
    (∀ p, ¬ IsTranscript dataRoot p → ∀ v ∈ discover fs dataRoot,
      ¬ Tracks fromStr fs source interval v p) ∧
    ((∀ v ∈ discover fs dataRoot, v.sessionDirs fs ≠ []) →
      ∃ sessions cronSessions : Workspace → ℕ,
        (∀ v ∈ discover fs dataRoot,
          let c := SessionCollector.new v source interval
          let writes := gaugeWrites (SessionCollector.collect fromStr fs c).2.1
          ∀ x, ((c.sessionsSeries, x) ∈ writes ↔ x = sessions v) ∧
            ((c.cronSessionsSeries, x) ∈ writes ↔ x = cronSessions v)) ∧
        {p | fs.holdsFile p ∧ IsTranscript dataRoot p}.encard =
          ((discover fs dataRoot).map fun v => sessions v + cronSessions v).sum) := by
  refine ⟨?_, ?_, fun hDirs => ?_⟩
  · intro tenant subscription agent user name stem hNamed hStem owner hFile v
    exact tracks_transcript_iff hPlain hNamed hStem hFile
  · intro p hOther v hv hTracks
    exact hOther (isTranscript_of_tracks hPlain hv hTracks).2
  · let files (v : Workspace) := (SessionCollector.collect fromStr fs (.new v source interval)).1.files
    refine ⟨fun v => (SessionCollector.totals (files v)).sessions,
      fun v => (SessionCollector.totals (files v)).cronSessions, ?_, ?_⟩
    · intro v hv c writes x
      have hSignals : writes = gaugeWrites (c.signals (SessionCollector.totals (files v))) := by
        have hCollect := @SessionCollector.collect_of_dirs fromStr fs c (hDirs v hv)
        simp only [writes, files, c] at hCollect ⊢
        rw [hCollect]
      rw [hSignals]
      exact ⟨sessions_written c _ x, cronSessions_written c _ x⟩
    · rw [sum_sessions]
      exact encard_transcripts hPlain

section Sample

theorem Disk.plain (d : Disk) (root : Path) : d.fs.Plain root where
  toWhole := d.whole root
  there p _ e he := by
    rw [d.entries_fs] at he
    obtain ⟨name, hName, rfl⟩ := List.mem_map.mp he
    exact (d.stat_isSome_iff _).mpr ((d.mem_childNames_iff p name).mp hName)
  fileType p _ e he := by
    rw [d.entries_fs] at he
    obtain ⟨name, hName, rfl⟩ := List.mem_map.mp he
    obtain ⟨m, hStat⟩ := Option.isSome_iff_exists.mp
      ((d.stat_isSome_iff _).mpr ((d.mem_childNames_iff p name).mp hName))
    change (d.stat (p ++ [name])).map Metadata.isDir =
      some (((d.stat (p ++ [name])).map Metadata.isDir).getD false)
    rw [hStat]
    rfl

def sampleTree : Fs :=
  (sampleDisk [("a.jsonl", []), ("a.meta.json", [])]).fs

theorem the_sample_transcript_has_one_collector :
    {v | v ∈ discover sampleTree sampleRoot ∧
      Tracks sampleFromStr sampleTree "picoclaw" 60 v (sampleSessions.join "a.jsonl")} =
      {sampleWorkspace} :=
  Set.ext ((each_transcript_has_one_collector sampleFromStr sampleTree sampleRoot "picoclaw" 60
    (Disk.plain _ _)).1 "acme" "sub-1" "alpha" "uuid-a" "workspace" (OsString.ofStr "a")
    (by decide) (by decide) (by decide))

end Sample

end HarnessSphere
