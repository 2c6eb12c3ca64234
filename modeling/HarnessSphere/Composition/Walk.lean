import HarnessSphere.Collectors.Session
import HarnessSphere.Composition.Names
import Mathlib.Data.String.Basic

/-! # The walk over the tenant tree

What a scan finds depends on the tree and not on the order in which its directories are listed: the
workspaces are the directories four levels down, in the order of their tuples.
-/

namespace HarnessSphere

/-- Below `root` every call succeeds: each directory can be listed, and its listing is complete. -/
structure Fs.Whole (fs : Fs) (root : Path) : Prop where
  readDir : ∀ p, root <+: p → ((fs.readDir p).isSome ↔ fs.isDir p)
  listed : ∀ p name, root <+: p → (fs.metadata (p ++ [name])).isSome →
    ∃ e ∈ fs.entries p, e.fileName = name

/-- The same tree, with the entries of each directory listed in any order. -/
structure Fs.Relisted (fs fs' : Fs) : Prop where
  metadata : fs'.metadata = fs.metadata
  openFile : fs'.openFile = fs.openFile
  readDir : ∀ p, Option.Rel (fun l l' => l.entries.Perm l'.entries) (fs.readDir p) (fs'.readDir p)

namespace Fs.Relisted

variable {fs fs' : Fs} (h : fs.Relisted fs')
include h

theorem isDir : fs'.isDir = fs.isDir := by
  funext p
  rw [Fs.isDir, Fs.isDir, h.metadata]

theorem isFile : fs'.isFile = fs.isFile := by
  funext p
  rw [Fs.isFile, Fs.isFile, h.metadata]

theorem entries (p : Path) : (fs.entries p).Perm (fs'.entries p) := by
  have hListing := h.readDir p
  rw [Fs.entries, Fs.entries]
  generalize fs.readDir p = l, fs'.readDir p = l' at hListing
  cases hListing with
  | some hPerm => exact hPerm
  | none => exact .refl _

end Fs.Relisted

section Order

instance : Std.Total nameThenPath where
  total a b := by
    obtain hLt | hEq | hGt := lt_trichotomy a.1 b.1
    · exact .inl (.inl hLt)
    · exact (Std.Total.total a.2 b.2).imp (fun h => .inr ⟨hEq, h⟩) fun h => .inr ⟨hEq.symm, h⟩
    · exact .inr (.inl hGt)

instance : IsTrans (String × Path) nameThenPath where
  trans a b c := by
    rintro (hab | ⟨hab, hPath⟩) (hbc | ⟨hbc, hPath'⟩)
    · exact .inl (hab.trans hbc)
    · exact .inl (hbc ▸ hab)
    · exact .inl (hab ▸ hbc)
    · exact .inr ⟨hab.trans hbc, Trans.trans hPath hPath'⟩

instance : Std.Antisymm nameThenPath where
  antisymm a b := by
    rintro (hab | ⟨hab, hPath⟩) (hba | ⟨hba, hPath'⟩)
    · exact absurd hab hba.asymm
    · exact absurd hab (hba ▸ lt_irrefl _)
    · exact absurd hba (hab ▸ lt_irrefl _)
    · exact Prod.ext hab (Std.Antisymm.antisymm _ _ hPath hPath')

/-- The order of `str`, byte by byte, is the order of the characters. -/
theorem ofStr_lt_iff {a b : String} : OsString.ofStr a < OsString.ofStr b ↔ a < b :=
  Utf8.encode_lt_iff

end Order

namespace Fs.Relisted

variable {fs fs' : Fs} (h : fs.Relisted fs')
include h

theorem subdirs : subdirs fs' = HarnessSphere.subdirs fs := by
  funext dir
  rw [HarnessSphere.subdirs, HarnessSphere.subdirs, h.isDir]
  exact insertionSort_eq_of_perm (((h.entries dir).symm.filter _).filterMap _)

theorem discover (dataRoot : Path) : discover fs' dataRoot = HarnessSphere.discover fs dataRoot := by
  rw [HarnessSphere.discover, HarnessSphere.discover, h.subdirs]

theorem childrenWith (dir : Path) (named : String → Bool) (leaf : String) (is : Path → Bool) :
    childrenWith fs' dir named leaf is = HarnessSphere.childrenWith fs dir named leaf is :=
  insertionSort_eq_of_perm ((h.entries dir).symm.filterMap _)

theorem sessionDirs (w : Workspace) : w.sessionDirs fs' = w.sessionDirs fs := by
  rw [Workspace.sessionDirs, Workspace.sessionDirs, h.isDir]
  exact h.childrenWith ..

theorem workspaceSubdirs (w : Workspace) (leaf : String) :
    w.workspaceSubdirs fs' leaf = w.workspaceSubdirs fs leaf := by
  rw [Workspace.workspaceSubdirs, Workspace.workspaceSubdirs, h.isDir]
  exact h.childrenWith ..

theorem graphFiles (w : Workspace) : w.graphFiles fs' = w.graphFiles fs := by
  rw [Workspace.graphFiles, Workspace.graphFiles, h.isFile]
  exact h.childrenWith ..

end Fs.Relisted

section Sorted

theorem map_ofStr_lt {t u : List String} (h : t < u) : t.map OsString.ofStr < u.map OsString.ofStr := by
  induction t generalizing u with
  | nil =>
    cases u with
    | nil => exact absurd h (List.not_lt_nil _)
    | cons b u => exact List.nil_lt_cons _ _
  | cons a t ih =>
    cases u with
    | nil => exact absurd h (List.not_lt_nil _)
    | cons b u =>
      obtain hLt | ⟨rfl, hTail⟩ := List.cons_lt_cons_iff.mp h
      · exact List.cons_lt_cons_iff.mpr (.inl (ofStr_lt_iff.mpr hLt))
      · exact List.cons_lt_cons_iff.mpr (.inr ⟨rfl, ih hTail⟩)

theorem subdirs_names_lt (fs : Fs) (dir : Path) :
    ((subdirs fs dir).map Prod.fst).Pairwise (· < ·) := by
  have hSorted : (subdirs fs dir).Pairwise nameThenPath := List.pairwise_insertionSort _ _
  refine List.pairwise_map.mpr ?_
  refine (hSorted.and (List.pairwise_map.mp (subdirs_names_nodup fs dir))).imp ?_
  rintro a b ⟨hLt | ⟨hEq, -⟩, hNe⟩
  · exact hLt
  · exact absurd hEq hNe

/-- What one level of the walk adds to the tuples found below each of its directories. -/
def prefixed {α : Type*} (level : List (String × α)) (below : α → List (List String)) :
    List (List String) :=
  level.flatMap fun (name, dir) => (below dir).map (name :: ·)

theorem prefixed_sorted {α : Type*} {level : List (String × α)} {below : α → List (List String)}
    (hNames : (level.map Prod.fst).Pairwise (· < ·))
    (hBelow : ∀ dir, (below dir).Pairwise (· < ·)) : (prefixed level below).Pairwise (· < ·) := by
  refine List.pairwise_flatMap.mpr ⟨?_, ?_⟩
  · rintro ⟨name, dir⟩ -
    refine List.pairwise_map.mpr ((hBelow dir).imp ?_)
    intro t u h
    exact List.cons_lt_cons_iff.mpr (.inr ⟨rfl, h⟩)
  · refine (List.pairwise_map.mp hNames).imp ?_
    intro a b hLt t ht u hu
    obtain ⟨t, -, rfl⟩ := List.mem_map.mp ht
    obtain ⟨u, -, rfl⟩ := List.mem_map.mp hu
    exact List.cons_lt_cons_iff.mpr (.inl hLt)

theorem tuples_discover (fs : Fs) (dataRoot : Path) :
    (discover fs dataRoot).map Workspace.tuple =
      prefixed (subdirs fs (dataRoot.join "tenants")) fun tdir =>
        prefixed (subdirs fs (tdir.join "subscriptions")) fun sdir =>
          prefixed (subdirs fs (sdir.join "agents")) fun adir =>
            prefixed (subdirs fs (adir.join "users")) fun _ => [[]] := by
  have hUsers (users : List (String × Path)) :
      prefixed users (fun _ => [[]]) = users.map fun user => [user.1] := by
    rw [prefixed, List.map_eq_flatMap]
    rfl
  simp only [hUsers]
  simp [discover, prefixed, List.map_flatMap, Function.comp_def, Workspace.tuple]

theorem discover_sorted (fs : Fs) (dataRoot : Path) :
    (discover fs dataRoot).Pairwise fun v w => v.tuple < w.tuple := by
  refine List.pairwise_map.mp ?_
  rw [tuples_discover]
  refine prefixed_sorted (subdirs_names_lt fs _) fun tdir => ?_
  refine prefixed_sorted (subdirs_names_lt fs _) fun sdir => ?_
  refine prefixed_sorted (subdirs_names_lt fs _) fun adir => ?_
  exact prefixed_sorted (subdirs_names_lt fs _) fun _ => List.pairwise_singleton _ _

end Sorted

namespace Workspace

/-- The directories on the way from the data root to a workspace, its own included. -/
def waypoints (w : Workspace) (dataRoot : Path) : List Path :=
  (w.levels dataRoot).flatMap fun (dir, name) => [dir, dir.join name]

end Workspace

theorem below_join {root p : Path} (h : root <+: p) (name : String) : root <+: p.join name :=
  h.trans (List.prefix_append _ _)

theorem Workspace.below_of_level {dataRoot : Path} {w : Workspace} {level : Path × String}
    (h : level ∈ w.levels dataRoot) : dataRoot <+: level.1 := by
  have hTenants := below_join (List.prefix_refl dataRoot) "tenants"
  have hSubscriptions := below_join (below_join hTenants w.tenant) "subscriptions"
  have hAgents := below_join (below_join hSubscriptions w.subscription) "agents"
  have hUsers := below_join (below_join hAgents w.agent) "users"
  simp only [Workspace.levels, List.mem_cons, List.not_mem_nil, or_false] at h
  obtain rfl | rfl | rfl | rfl := h
  · exact hTenants
  · exact hSubscriptions
  · exact hAgents
  · exact hUsers

theorem Workspace.below_of_waypoint {dataRoot : Path} {w : Workspace} {p : Path}
    (h : p ∈ w.waypoints dataRoot) : dataRoot <+: p := by
  obtain ⟨level, hLevel, hp⟩ := List.mem_flatMap.mp h
  have hBelow := Workspace.below_of_level hLevel
  simp only [List.mem_cons, List.not_mem_nil, or_false] at hp
  obtain rfl | rfl := hp
  · exact hBelow
  · exact below_join hBelow level.2

theorem Fs.isDir_isSome {fs : Fs} {p : Path} (h : fs.isDir p) : (fs.metadata p).isSome := by
  rw [Fs.isDir] at h
  cases hMetadata : fs.metadata p with
  | none => simp [hMetadata] at h
  | some m => rfl

theorem Workspace.prefix_of_waypoint {dataRoot : Path} {w : Workspace} {p : Path}
    (h : p ∈ w.waypoints dataRoot) : p <+: (w.usersDir dataRoot).join w.user := by
  have hUsers := below_join (List.prefix_refl (w.usersDir dataRoot)) w.user
  have hAgent := (below_join (List.prefix_refl ((w.agentsDir dataRoot).join w.agent)) "users").trans
    hUsers
  have hAgents := (below_join (List.prefix_refl (w.agentsDir dataRoot)) w.agent).trans hAgent
  have hSubscription := (below_join
    (List.prefix_refl ((w.subscriptionsDir dataRoot).join w.subscription)) "agents").trans hAgents
  have hSubscriptions := (below_join (List.prefix_refl (w.subscriptionsDir dataRoot))
    w.subscription).trans hSubscription
  have hTenant := (below_join (List.prefix_refl ((tenantsDir dataRoot).join w.tenant))
    "subscriptions").trans hSubscriptions
  have hTenants := (below_join (List.prefix_refl (tenantsDir dataRoot)) w.tenant).trans hTenant
  simp only [waypoints, levels, List.flatMap_cons, List.flatMap_nil, List.mem_append, List.mem_cons,
    List.not_mem_nil, or_false] at h
  obtain (rfl | rfl) | (rfl | rfl) | (rfl | rfl) | rfl | rfl := h
  · exact hTenants
  · exact hTenant
  · exact hSubscriptions
  · exact hSubscription
  · exact hAgents
  · exact hAgent
  · exact hUsers
  · exact List.prefix_refl _

namespace Fs.Whole

variable {fs : Fs} {root : Path} (h : fs.Whole root)
include h

theorem isDir_of_entry {p : Path} (hBelow : root <+: p) {e : DirEntry} (he : e ∈ fs.entries p) :
    fs.isDir p := by
  refine (h.readDir p hBelow).mp ?_
  rw [Fs.entries] at he
  cases hRead : fs.readDir p with
  | none => simp [hRead] at he
  | some listing => rfl

theorem listed_of_isDir {p : Path} (hBelow : root <+: p) {name : String}
    (hDir : fs.isDir (p.join name)) : fs.Listed p name := by
  exact h.listed p (OsString.ofStr name) hBelow (Fs.isDir_isSome hDir)

theorem isDir_of_child {p : Path} (hBelow : root <+: p) {name : OsString}
    (hChild : (fs.metadata (p ++ [name])).isSome) : fs.isDir p := by
  obtain ⟨e, he, -⟩ := h.listed p name hBelow hChild
  exact h.isDir_of_entry hBelow he

/-- Above whatever is there stand directories only. -/
theorem isDir_above {p : Path} (hBelow : root <+: p) {rest : Path} (hRest : rest ≠ [])
    (hThere : (fs.metadata (p ++ rest)).isSome) : fs.isDir p := by
  induction rest using List.reverseRecOn with
  | nil => exact absurd rfl hRest
  | append_singleton rest name ih =>
    rw [← List.append_assoc] at hThere
    have hParent := h.isDir_of_child (hBelow.trans (List.prefix_append p rest)) hThere
    cases rest with
    | nil => rwa [List.append_nil] at hParent
    | cons first rest => exact ih (List.cons_ne_nil _ _) (Fs.isDir_isSome hParent)

end Fs.Whole

theorem mem_discover_iff_waypoints {fs : Fs} {dataRoot : Path} (hWhole : fs.Whole dataRoot)
    {w : Workspace} :
    w ∈ discover fs dataRoot ↔
      w.Rooted dataRoot ∧ ∀ p ∈ w.waypoints dataRoot, fs.isDir p := by
  rw [mem_discover, and_comm, Workspace.waypoints, List.forall_mem_flatMap]
  refine and_congr_right fun _ => forall₂_congr fun level hLevel => ?_
  have hBelow := Workspace.below_of_level hLevel
  simp only [List.forall_mem_cons, List.not_mem_nil, false_implies, implies_true, and_true]
  constructor
  · rintro ⟨⟨e, he, -⟩, hDir⟩
    exact ⟨hWhole.isDir_of_entry hBelow he, hDir⟩
  · rintro ⟨-, hDir⟩
    exact ⟨hWhole.listed_of_isDir hBelow hDir, hDir⟩

namespace Disk

variable (d : Disk)

theorem isDir_of_below {p q : Path} {name : OsString} (hq : q ∈ d.paths) (h : p ++ [name] <+: q) :
    d.isDir p := by
  obtain ⟨rest, rfl⟩ := h
  refine Bool.or_eq_true_iff.mpr (.inr (List.any_eq_true.mpr ⟨_, hq, ?_⟩))
  simp

theorem mem_childNames_iff (p : Path) (name : OsString) :
    name ∈ d.childNames p ↔ ∃ q ∈ d.paths, p ++ [name] <+: q := by
  rw [childNames, List.mem_dedup, List.mem_filterMap]
  refine exists_congr fun q => and_congr_right fun _ => ?_
  rw [Option.ite_none_right_eq_some, List.isPrefixOf_iff_prefix]
  constructor
  · rintro ⟨⟨rest, rfl⟩, hHead⟩
    rw [List.drop_left] at hHead
    obtain ⟨rest, rfl⟩ := List.head?_eq_some_iff.mp hHead
    exact ⟨rest, by simp⟩
  · rintro ⟨rest, rfl⟩
    exact ⟨⟨[name] ++ rest, by simp⟩, by simp⟩

theorem stat_isSome_iff (p : Path) : (d.stat p).isSome ↔ ∃ q ∈ d.paths, p <+: q := by
  rw [stat]
  split_ifs with hDir
  · refine iff_of_true rfl ?_
    obtain hMem | hAny := Bool.or_eq_true_iff.mp hDir
    · exact ⟨p, List.mem_append_left _ (of_decide_eq_true hMem), List.prefix_refl p⟩
    · obtain ⟨q, hq, hBelow⟩ := List.any_eq_true.mp hAny
      exact ⟨q, hq, List.isPrefixOf_iff_prefix.mp (Bool.and_eq_true_iff.mp hBelow).1⟩
  · have hLookup : (d.files.lookup p).isSome ↔ p ∈ d.files.map Prod.fst := by
      rw [List.lookup_isSome_iff]
      simp
    rw [Option.isSome_map, hLookup]
    constructor
    · exact fun hFile => ⟨p, List.mem_append_right _ hFile, List.prefix_refl p⟩
    · rintro ⟨q, hq, rest, rfl⟩
      cases rest with
      | nil =>
        rw [List.append_nil] at hq
        refine (List.mem_append.mp hq).resolve_left fun hMem => hDir ?_
        exact Bool.or_eq_true_iff.mpr (.inl (decide_eq_true hMem))
      | cons name rest =>
        exact absurd (d.isDir_of_below hq (List.prefix_append_right_inj p |>.mpr ⟨rest, rfl⟩)) hDir

theorem entries_fs (p : Path) : d.fs.entries p = (d.childNames p).map (d.entry p) := by
  change ((if d.isDir p then some (d.listing p) else none).map Listing.entries).getD [] = _
  split_ifs with hDir
  · rfl
  · refine (List.map_eq_nil_iff.mpr (List.eq_nil_iff_forall_not_mem.mpr ?_)).symm
    intro name hName
    obtain ⟨q, hq, hBelow⟩ := (d.mem_childNames_iff p name).mp hName
    exact hDir (d.isDir_of_below hq hBelow)

theorem whole (root : Path) : d.fs.Whole root where
  readDir p _ := by
    rw [isDir_fs]
    change (if d.isDir p then some (d.listing p) else none).isSome ↔ _
    cases d.isDir p <;> simp
  listed p name _ h := by
    obtain ⟨q, hq, hBelow⟩ := (d.stat_isSome_iff _).mp h
    rw [entries_fs]
    exact ⟨d.entry p name,
      List.mem_map_of_mem ((d.mem_childNames_iff p name).mpr ⟨q, hq, hBelow⟩), rfl⟩

end Disk

/-- A scan of a whole tree does not depend on the order of any listing; it finds a workspace exactly
for each tuple whose path leads through directories only, in the order of the tuples, byte by byte.
Nor do the directories and files that a workspace names depend on an order. -/
theorem discover_exact (fs : Fs) (dataRoot : Path) (hWhole : fs.Whole dataRoot) :
    (∀ fs', fs.Relisted fs' →
      discover fs' dataRoot = discover fs dataRoot ∧
      ∀ w : Workspace, w.sessionDirs fs' = w.sessionDirs fs ∧ w.skillDirs fs' = w.skillDirs fs ∧
        w.memoryDirs fs' = w.memoryDirs fs ∧ w.graphFiles fs' = w.graphFiles fs) ∧
    ((discover fs dataRoot).Pairwise fun v w =>
      v.tuple.map OsString.ofStr < w.tuple.map OsString.ofStr) ∧
    ∀ w, w ∈ discover fs dataRoot ↔
      w.Rooted dataRoot ∧ ∀ p ∈ w.waypoints dataRoot, fs.isDir p := by
  refine ⟨fun fs' h => ⟨h.discover dataRoot, fun w => ?_⟩,
    (discover_sorted fs dataRoot).imp map_ofStr_lt, fun w => mem_discover_iff_waypoints hWhole⟩
  exact ⟨h.sessionDirs w, h.workspaceSubdirs w "skills", h.workspaceSubdirs w "memory",
    h.graphFiles w⟩

section Sample

def sampleRoot : Path := ["", "data"].map OsString.ofStr

def Listing.reversed (l : Listing) : Listing where
  entries := l.entries.reverse
  nodup := by
    rw [List.map_reverse, List.nodup_reverse]
    exact l.nodup

def Fs.reversed (fs : Fs) : Fs := { fs with readDir := fun p => (fs.readDir p).map Listing.reversed }

theorem relisted_reversed (fs : Fs) : fs.Relisted fs.reversed where
  metadata := rfl
  openFile := rfl
  readDir p := by
    change Option.Rel _ (fs.readDir p) ((fs.readDir p).map Listing.reversed)
    cases fs.readDir p with
    | none => exact .none
    | some l => exact .some (List.reverse_perm l.entries).symm

def userOf (tenant user : String) : Workspace where
  tenant := tenant
  subscription := "sub-1"
  agent := "alpha"
  user := user
  root := ["", "data", "tenants", tenant, "subscriptions", "sub-1", "agents", "alpha", "users",
    user].map OsString.ofStr

/-- Three workspaces, not in their order, and a file where a fourth would be. -/
def threeWorkspaces : Disk where
  dirs := [(userOf "beta" "uuid-a").root, (userOf "acme" "uuid-b").root, (userOf "acme" "uuid-a").root]
  files := [((userOf "acme" "uuid-c").root, [])]

theorem three_workspaces_are_found_in_order :
    discover threeWorkspaces.fs.reversed sampleRoot = discover threeWorkspaces.fs sampleRoot ∧
      ((discover threeWorkspaces.fs sampleRoot).Pairwise fun v w =>
        v.tuple.map OsString.ofStr < w.tuple.map OsString.ofStr) ∧
      userOf "acme" "uuid-a" ∈ discover threeWorkspaces.fs sampleRoot ∧
      userOf "acme" "uuid-b" ∈ discover threeWorkspaces.fs sampleRoot ∧
      userOf "beta" "uuid-a" ∈ discover threeWorkspaces.fs sampleRoot ∧
      userOf "acme" "uuid-c" ∉ discover threeWorkspaces.fs sampleRoot := by
  obtain ⟨hOrder, hSorted, hExact⟩ :=
    discover_exact threeWorkspaces.fs sampleRoot (threeWorkspaces.whole _)
  refine ⟨(hOrder _ (relisted_reversed _)).1, hSorted, (hExact _).mpr ⟨rfl, ?_⟩,
    (hExact _).mpr ⟨rfl, ?_⟩, (hExact _).mpr ⟨rfl, ?_⟩, fun h => ?_⟩
  · decide
  · decide
  · decide
  · have hDirs := ((hExact _).mp h).2
    revert hDirs
    decide

end Sample

end HarnessSphere
