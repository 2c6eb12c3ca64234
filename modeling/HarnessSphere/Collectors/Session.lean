import HarnessSphere.Domain.Signal
import HarnessSphere.Collectors.Workspace
import HarnessSphere.Collectors.Transcript

/-! # The session collector

One tick lists the transcripts of the workspace, forgets those that are gone, reads on in the
others and emits the totals. The file table is judged path by path: what a tick makes of one path
depends on that path alone, and the totals are a sum over the paths in any order.
-/

namespace HarnessSphere

structure SessionCollector where
  descriptor : SourceDescriptor
  workspace : Workspace
  source : String
  files : Table Path FileState

structure SessionTotals where
  roles : Counters String
  toolCalls : Nat
  sessions : Nat
  cronSessions : Nat

def SessionTotals.add (t : SessionTotals) (state : FileState) : SessionTotals :=
  if state.cron then { t with cronSessions := t.cronSessions + 1 }
  else
    { t with
      sessions := t.sessions + 1
      roles := t.roles.merge state.roles
      toolCalls := t.toolCalls + state.toolCalls }

def transcriptPath (dir : Path) (e : DirEntry) : Option Path :=
  let path := e.path dir
  if e.fileType.getD false then none
  else if path.extension.bind OsString.toStr ≠ some "jsonl" then none
  else some path

def transcripts (fs : Fs) (dirs : List Path) : List Path :=
  dirs.flatMap fun dir => (fs.entries dir).filterMap (transcriptPath dir)

namespace SessionCollector

section Code

variable (fromStr : Json.FromStr)

def new (workspace : Workspace) (source : String) (interval : Duration) : SessionCollector where
  descriptor := ⟨workspace.sourceName, .harness, .optional, interval⟩
  workspace := workspace
  source := source
  files := ∅

def tag (c : SessionCollector) (m : Metric) : Metric := c.workspace.tag c.source m

def visit (fs : Fs) (files : Table Path FileState) (path : Path) : Table Path FileState :=
  match fs.metadata path with
  | none => files
  | some m =>
    let cron := match files.lookup path with
      | some known => known.cron
      | none => isCron fromStr fs path
    let state := { (files.lookup path).getD default with cron := cron }
    files.insert path (readNew fromStr fs state path m.len)

def refresh (fs : Fs) (files : Table Path FileState) (present : List Path) : Table Path FileState :=
  present.foldl (visit fromStr fs) (files.retain fun p => p ∈ present)

def totals (files : Table Path FileState) : SessionTotals :=
  (files.entries.map Sigma.snd).foldl SessionTotals.add ⟨∅, 0, 0, 0⟩

def signals (c : SessionCollector) (t : SessionTotals) : List Signal :=
  (t.roles.table.entries.map fun e =>
    ((c.tag (.now "harnesssphere.harness.messages" .gauge e.2)).attr "role" (.str e.1)).intoSignal) ++
  [(c.tag (.now "harnesssphere.tool.calls" .gauge t.toolCalls)).intoSignal,
    (c.tag (.now "harnesssphere.harness.sessions" .gauge t.sessions)).intoSignal,
    (c.tag (.now "harnesssphere.harness.cron.sessions" .gauge t.cronSessions)).intoSignal]

def probe (fs : Fs) (c : SessionCollector) : ProbeResult := c.workspace.probe fs

def collect (fs : Fs) (c : SessionCollector) :
    SessionCollector × List Signal × Except CollectError Unit :=
  let dirs := c.workspace.sessionDirs fs
  if dirs = [] then
    (c, [], .error (.unavailable ("no session directories under " ++ c.workspace.root.display)))
  else
    let files := refresh fromStr fs c.files (transcripts fs dirs)
    ({ c with files := files }, c.signals (totals files), .ok ())

def retire (c : SessionCollector) : List Signal :=
  ["harnesssphere.harness.sessions", "harnesssphere.tool.calls",
    "harnesssphere.harness.cron.sessions"].map fun name =>
      (c.tag (.now name .gauge 0)).intoSignal

def present (fs : Fs) (c : SessionCollector) : List Path :=
  transcripts fs (c.workspace.sessionDirs fs)

def revisit (fs : Fs) (path : Path) (old : Option FileState) : Option FileState :=
  match fs.metadata path with
  | none => old
  | some m =>
    let cron := (old.map FileState.cron).getD (isCron fromStr fs path)
    some (readNew fromStr fs { old.getD default with cron := cron } path m.len)

end Code

theorem transcriptPath_eq_some {dir p : Path} {e : DirEntry} (h : transcriptPath dir e = some p) :
    p = e.path dir := by
  unfold transcriptPath at h
  dsimp only at h
  split_ifs at h
  exact (Option.some.inj h).symm

theorem transcripts_nodup (fs : Fs) {dirs : List Path} (hDirs : dirs.Nodup) :
    (transcripts fs dirs).Nodup := by
  apply fs.nodup_flatMap_entries hDirs id
  intro dir e p hp
  exact transcriptPath_eq_some hp

theorem present_nodup (fs : Fs) (c : SessionCollector) : (c.present fs).Nodup :=
  transcripts_nodup fs (childrenWith_nodup _ _ _ _ _)

variable {fromStr : Json.FromStr}

theorem lookup_visit (fs : Fs) (files : Table Path FileState) (path q : Path) :
    (visit fromStr fs files path).lookup q =
      if q = path then revisit fromStr fs path (files.lookup path) else files.lookup q := by
  unfold visit revisit
  cases fs.metadata path with
  | none =>
    split_ifs with hq
    · rw [hq]
    · rfl
  | some m =>
    split_ifs with hq
    · subst hq
      rw [AList.lookup_insert]
      cases files.lookup q <;> rfl
    · exact AList.lookup_insert_ne hq

theorem lookup_refresh (fs : Fs) (files : Table Path FileState) {present : List Path}
    (hNodup : present.Nodup) (q : Path) :
    (refresh fromStr fs files present).lookup q =
      if q ∈ present then revisit fromStr fs q (files.lookup q) else none := by
  have hFold (ps : List Path) (hps : ps.Nodup) (files : Table Path FileState) :
      (ps.foldl (visit fromStr fs) files).lookup q =
        if q ∈ ps then revisit fromStr fs q (files.lookup q) else files.lookup q := by
    induction ps generalizing files with
    | nil => simp
    | cons p ps ih =>
      obtain ⟨hHead, hTail⟩ := List.nodup_cons.mp hps
      rw [List.foldl_cons, ih hTail, lookup_visit]
      obtain rfl | hq := eq_or_ne q p
      · simp [hHead]
      · simp [hq]
  rw [refresh, hFold _ hNodup, Table.lookup_retain]
  split_ifs <;> simp_all

theorem keys_refresh_perm {fs : Fs} (files : Table Path FileState) {present : List Path}
    (hNodup : present.Nodup) (hMeta : ∀ p ∈ present, (fs.metadata p).isSome) :
    (refresh fromStr fs files present).keys.Perm present := by
  apply (List.perm_ext_iff_of_nodup (AList.keys_nodup _) hNodup).mpr
  intro p
  rw [← AList.mem_keys, ← AList.lookup_isSome, lookup_refresh fs _ hNodup]
  split_ifs with hp
  · obtain ⟨m, hMetadata⟩ := Option.isSome_iff_exists.mp (hMeta p hp)
    simp [hp, revisit, hMetadata]
  · simp [hp]

section Totals

/-- What a file adds to the totals: its records and a session, or a cron session. -/
def share (state : FileState) : Tally × ℕ × ℕ :=
  if state.cron then (0, 0, 1) else (state.tally, 1, 0)

def sum (t : SessionTotals) : Tally × ℕ × ℕ :=
  ((t.roles.bag, t.toolCalls), t.sessions, t.cronSessions)

theorem sum_add (t : SessionTotals) (state : FileState) :
    sum (t.add state) = sum t + share state := by
  unfold SessionTotals.add share
  split_ifs
  · simp [sum]
  · simp [sum, Counters.bag_merge, FileState.tally]

theorem sum_totals (files : Table Path FileState) :
    sum (totals files) = (files.entries.map fun e => share e.2).sum := by
  rw [totals, foldl_sum sum_add, List.map_map]
  exact zero_add _

theorem sum_totals_of_perm {files : Table Path FileState} {paths : List Path}
    (h : files.keys.Perm paths) :
    sum (totals files) = (paths.map fun p => ((files.lookup p).map share).getD 0).sum := by
  rw [sum_totals, Table.sum_entries files h fun _ state => share state]

def Counted (files : Table Path FileState) (role : String) : Prop :=
  ∃ p state, files.lookup p = some state ∧ state.cron = false ∧ role ∈ state.roles.bag

theorem mem_totals_roles {files : Table Path FileState} {role : String} :
    role ∈ (totals files).roles.bag ↔ Counted files role := by
  have hBag : (totals files).roles.bag = (files.entries.map fun e => (share e.2).1.1).sum := by
    have h := congrArg (fun x => x.1.1) (sum_totals files)
    have hHom (l : List (Tally × ℕ × ℕ)) : l.sum.1.1 = (l.map fun x => x.1.1).sum := by
      induction l with
      | nil => rfl
      | cons x l ih => simp [ih]
    simpa [sum, hHom, Function.comp_def] using h
  rw [hBag, Counted, Counters.mem_sum_bags]
  constructor
  · rintro ⟨bag, hBag, hRole⟩
    obtain ⟨e, he, rfl⟩ := List.mem_map.mp hBag
    refine ⟨e.1, e.2, AList.mem_lookup_iff.mpr he, ?_⟩
    unfold share at hRole
    split_ifs at hRole with hCron
    · simp at hRole
    · exact ⟨by simpa using hCron, hRole⟩
  · rintro ⟨p, state, hLookup, hCron, hRole⟩
    refine ⟨_, List.mem_map.mpr ⟨⟨p, state⟩, AList.mem_lookup_iff.mp hLookup, rfl⟩, ?_⟩
    simpa [share, hCron, FileState.tally] using hRole

end Totals

section Writes

variable (c : SessionCollector)

def messagesSeries (role : String) : Series :=
  c.workspace.series c.source "harnesssphere.harness.messages" [("role", .str role)]

def toolCallsSeries : Series := c.workspace.series c.source "harnesssphere.tool.calls" []

def sessionsSeries : Series := c.workspace.series c.source "harnesssphere.harness.sessions" []

def cronSessionsSeries : Series :=
  c.workspace.series c.source "harnesssphere.harness.cron.sessions" []

theorem messagesSeries_injective {role role' : String}
    (h : c.messagesSeries role = c.messagesSeries role') : role = role' := by
  simpa [messagesSeries, Workspace.series_eq_iff] using h

theorem writes_signals (t : SessionTotals) :
    gaugeWrites (c.signals t) =
      (t.roles.table.entries.map fun e => (c.messagesSeries e.1, (e.2 : F64))) ++
        [(c.toolCallsSeries, (t.toolCalls : F64)), (c.sessionsSeries, (t.sessions : F64)),
          (c.cronSessionsSeries, (t.cronSessions : F64))] := by
  rw [signals, gaugeWrites_append]
  congr 1
  rw [gaugeWrites, List.filterMap_map, ← List.filterMap_eq_map]
  rfl

theorem writes_retire :
    gaugeWrites c.retire =
      [(c.sessionsSeries, 0), (c.toolCallsSeries, 0), (c.cronSessionsSeries, 0)] := rfl

theorem mem_writes_signals (t : SessionTotals) (s : Series) (v : F64) :
    (s, v) ∈ gaugeWrites (c.signals t) ↔
      (∃ role, role ∈ t.roles.bag ∧ s = c.messagesSeries role ∧ v = t.roles.bag.count role) ∨
        (s = c.toolCallsSeries ∧ v = t.toolCalls) ∨ (s = c.sessionsSeries ∧ v = t.sessions) ∨
          (s = c.cronSessionsSeries ∧ v = t.cronSessions) := by
  rw [writes_signals, List.mem_append, List.mem_map]
  simp only [List.mem_cons, Prod.mk.injEq, List.not_mem_nil, or_false]
  refine or_congr_left ?_
  constructor
  · rintro ⟨⟨role, n⟩, he, rfl, rfl⟩
    obtain ⟨hPos, hn⟩ := Counters.mem_entries_iff.mp he
    exact ⟨role, Multiset.count_pos.mp (hn ▸ hPos), rfl, by rw [← hn]⟩
  · rintro ⟨role, hRole, rfl, rfl⟩
    exact ⟨⟨role, _⟩, Counters.mem_entries_iff.mpr ⟨Multiset.count_pos.mpr hRole, rfl⟩, rfl, rfl⟩

end Writes

end SessionCollector

section Sample

def roleLine (role : String) : String := "\x7b\"role\":\"" ++ role ++ "\"\x7d"

def cronMeta : String := "\x7b\"key\":\"agent:cron-nightly\"\x7d"

/-- The parser on the texts of the samples. -/
def sampleFromStr : Json.FromStr := fun text =>
  ([(roleLine "user", .object [("role", .string "user")]),
    (roleLine "assistant", .object [("role", .string "assistant")]),
    (cronMeta, .object [("key", .string "agent:cron-nightly")])] :
      List (String × Json.Value)).lookup (String.ofList text)

def sampleWorkspace : Workspace where
  tenant := "acme"
  subscription := "sub-1"
  agent := "alpha"
  user := "uuid-a"
  root := ["", "data", "tenants", "acme", "subscriptions", "sub-1", "agents", "alpha", "users",
    "uuid-a"].map OsString.ofStr

def sampleSessions : Path := (sampleWorkspace.root.join "workspace").join "sessions"

def sampleDisk (files : List (String × List UInt8)) : Disk where
  dirs := [sampleSessions]
  files := files.map fun f => (sampleSessions.join f.1, f.2)

def sampleCollector : SessionCollector := .new sampleWorkspace "picoclaw" 60

example : sampleCollector.present
    (sampleDisk [("a.jsonl", []), ("a.meta.json", [])]).fs = [sampleSessions.join "a.jsonl"] := by
  decide

end Sample

end HarnessSphere
