import HarnessSphere.Library.Words
import HarnessSphere.Collectors.Workspace

/-! # What a scan finds, and under which names

Every directory name on the way to a workspace is part of its source name, set off by slashes. Where
no name has a slash of its own, two workspaces of one scan never share a source name.
-/

namespace HarnessSphere

def slash : UInt8 := 47

def SlashFree (name : String) : Prop := '/' ∉ name.toList

/-- No directory lists a name with a slash in it. -/
def Fs.SlashFree (fs : Fs) : Prop := ∀ p, ∀ e ∈ fs.entries p, slash ∉ e.fileName

def Fs.Listed (fs : Fs) (dir : Path) (name : String) : Prop :=
  ∃ e ∈ fs.entries dir, e.fileName = OsString.ofStr name

theorem Fs.SlashFree.of_listed {fs : Fs} (h : fs.SlashFree) {dir : Path} {name : String}
    (hListed : fs.Listed dir name) : HarnessSphere.SlashFree name := by
  obtain ⟨e, he, hName⟩ := hListed
  intro hSlash
  apply h dir e he
  rw [hName]
  exact List.mem_flatMap.mpr ⟨'/', hSlash, by decide⟩

theorem Disk.slashFree {d : Disk} (h : ∀ p ∈ d.paths, ∀ name ∈ p, slash ∉ name) :
    d.fs.SlashFree := by
  intro p e he
  have hListing : e ∈ (d.listing p).entries := by
    simp only [Fs.entries, Disk.fs] at he
    split at he
    · exact he
    · cases he
  obtain ⟨name, hName, rfl⟩ := List.mem_map.mp hListing
  obtain ⟨q, hq, hHead⟩ := List.mem_filterMap.mp (List.mem_dedup.mp hName)
  obtain ⟨-, hHead⟩ := Option.ite_none_right_eq_some.mp hHead
  exact h q hq name (List.mem_of_mem_drop (List.mem_of_head? hHead))

theorem mem_subdirs {fs : Fs} {dir path : Path} {name : String} :
    (name, path) ∈ subdirs fs dir ↔
      fs.Listed dir name ∧ fs.isDir (dir.join name) ∧ path = dir.join name := by
  simp only [subdirs, List.mem_insertionSort, List.mem_filterMap, List.mem_filter,
    Option.map_eq_some_iff, OsString.toStr_eq_some_iff, Prod.mk.injEq]
  constructor
  · rintro ⟨e, ⟨he, hDir⟩, name', hName, rfl, rfl⟩
    have hPath : e.path dir = dir.join name' := by rw [DirEntry.path, hName, Path.join]
    exact ⟨⟨e, he, hName⟩, hPath ▸ hDir, hPath⟩
  · rintro ⟨⟨e, he, hName⟩, hDir, rfl⟩
    have hPath : e.path dir = dir.join name := by rw [DirEntry.path, hName, Path.join]
    exact ⟨e, ⟨he, hPath ▸ hDir⟩, name, hName, rfl, hPath⟩

theorem subdirs_names_nodup (fs : Fs) (dir : Path) : ((subdirs fs dir).map Prod.fst).Nodup := by
  have hPaths : ((subdirs fs dir).map Prod.snd).Nodup := by
    rw [subdirs, ((List.perm_insertionSort nameThenPath _).map Prod.snd).nodup_iff,
      List.filterMap_filter, List.map_filterMap]
    apply fs.nodup_filterMap_entries dir []
    intro e q hq
    obtain ⟨x, hx, rfl⟩ := Option.map_eq_some_iff.mp hq
    obtain ⟨-, hx⟩ := Option.ite_none_right_eq_some.mp hx
    obtain ⟨name, -, rfl⟩ := Option.map_eq_some_iff.mp hx
    exact (List.append_nil _).symm
  refine hPaths.of_map.map_on ?_
  rintro ⟨name, path⟩ hx ⟨name', path'⟩ hy rfl
  rw [(mem_subdirs.mp hx).2.2, (mem_subdirs.mp hy).2.2]

namespace Workspace

variable (dataRoot : Path) (w : Workspace)

def tenantsDir : Path := dataRoot.join "tenants"

def subscriptionsDir : Path := ((tenantsDir dataRoot).join w.tenant).join "subscriptions"

def agentsDir : Path := ((w.subscriptionsDir dataRoot).join w.subscription).join "agents"

def usersDir : Path := ((w.agentsDir dataRoot).join w.agent).join "users"

def levels : List (Path × String) :=
  [(tenantsDir dataRoot, w.tenant), (w.subscriptionsDir dataRoot, w.subscription),
    (w.agentsDir dataRoot, w.agent), (w.usersDir dataRoot, w.user)]

def Rooted : Prop := w.root = (w.usersDir dataRoot).join w.user

def tuple : List String := [w.tenant, w.subscription, w.agent, w.user]

def SlashFree : Prop := ∀ name ∈ w.tuple, HarnessSphere.SlashFree name

theorem levels_names : (w.levels dataRoot).map Prod.snd = w.tuple := rfl

end Workspace

theorem mem_discover {fs : Fs} {dataRoot : Path} {w : Workspace} :
    w ∈ discover fs dataRoot ↔
      (∀ level ∈ w.levels dataRoot, fs.Listed level.1 level.2 ∧ fs.isDir (level.1.join level.2)) ∧
        w.Rooted dataRoot := by
  simp only [discover, List.mem_flatMap, List.mem_map, Prod.exists, mem_subdirs, Workspace.levels,
    List.forall_mem_cons, List.not_mem_nil, false_implies, implies_true, and_true]
  constructor
  · rintro ⟨t, _, ⟨hT, hTDir, rfl⟩, s, _, ⟨hS, hSDir, rfl⟩, a, _, ⟨hA, hADir, rfl⟩, u, _,
      ⟨hU, hUDir, rfl⟩, rfl⟩
    exact ⟨⟨⟨hT, hTDir⟩, ⟨hS, hSDir⟩, ⟨hA, hADir⟩, hU, hUDir⟩, rfl⟩
  · rintro ⟨⟨⟨hT, hTDir⟩, ⟨hS, hSDir⟩, ⟨hA, hADir⟩, hU, hUDir⟩, hRoot⟩
    refine ⟨_, _, ⟨hT, hTDir, rfl⟩, _, _, ⟨hS, hSDir, rfl⟩, _, _, ⟨hA, hADir, rfl⟩, _, _,
      ⟨hU, hUDir, rfl⟩, ?_⟩
    obtain ⟨t, s, a, u, root⟩ := w
    exact congrArg (Workspace.mk t s a u) hRoot.symm

theorem nodup_flatMap_of_key {α β κ : Type*} {l : List (κ × α)} (hKeys : (l.map Prod.fst).Nodup)
    {f : κ × α → List β} (key : β → κ) (hKey : ∀ x ∈ l, ∀ b ∈ f x, key b = x.1)
    (hEach : ∀ x ∈ l, (f x).Nodup) : (l.flatMap f).Nodup := by
  refine List.nodup_flatMap.mpr ⟨hEach, ?_⟩
  refine (List.pairwise_map.mp hKeys).imp_of_mem ?_
  intro x y hx hy hne
  refine List.disjoint_left.mpr ?_
  intro b hbx hby
  exact hne ((hKey x hx b hbx).symm.trans (hKey y hy b hby))

theorem discover_nodup (fs : Fs) (dataRoot : Path) : (discover fs dataRoot).Nodup := by
  unfold discover
  refine nodup_flatMap_of_key (subdirs_names_nodup fs _) Workspace.tenant ?_ fun t _ => ?_
  · simp only [List.mem_flatMap, List.mem_map]
    rintro t - w ⟨s, -, a, -, u, -, rfl⟩
    rfl
  refine nodup_flatMap_of_key (subdirs_names_nodup fs _) Workspace.subscription ?_ fun s _ => ?_
  · simp only [List.mem_flatMap, List.mem_map]
    rintro s - w ⟨a, -, u, -, rfl⟩
    rfl
  refine nodup_flatMap_of_key (subdirs_names_nodup fs _) Workspace.agent ?_ fun a _ => ?_
  · simp only [List.mem_map]
    rintro a - w ⟨u, -, rfl⟩
    rfl
  refine (subdirs_names_nodup fs _).of_map.map_on ?_
  rintro u hu v hv hEq
  have hName : u.1 = v.1 := congrArg Workspace.user hEq
  have hPath : u.2 = v.2 := congrArg Workspace.root hEq
  exact Prod.ext hName hPath

theorem slashFree_of_mem_discover {fs : Fs} (h : fs.SlashFree) {dataRoot : Path} {w : Workspace}
    (hw : w ∈ discover fs dataRoot) : w.SlashFree := by
  intro name hName
  obtain ⟨level, hLevel, rfl⟩ := List.mem_map.mp (w.levels_names dataRoot ▸ hName)
  exact h.of_listed ((mem_discover.mp hw).1 level hLevel).1

theorem sourceName_toList (w : Workspace) :
    w.sourceName.toList = "session:".toList ++
      (w.tenant.toList ++ '/' :: (w.subscription.toList ++ '/' ::
        (w.agent.toList ++ '/' :: w.user.toList))) := by
  simp [Workspace.sourceName, String.toList_append]

theorem sourceName_injective {v w : Workspace} (hv : v.SlashFree) (hw : w.SlashFree)
    (h : v.sourceName = w.sourceName) : v.tuple = w.tuple := by
  have hList := congrArg String.toList h
  rw [sourceName_toList, sourceName_toList] at hList
  obtain ⟨hTenant, hList⟩ := Words.cut (hv _ (by simp [Workspace.tuple]))
    (hw _ (by simp [Workspace.tuple])) (List.append_cancel_left hList)
  obtain ⟨hSubscription, hList⟩ := Words.cut (hv _ (by simp [Workspace.tuple]))
    (hw _ (by simp [Workspace.tuple])) hList
  obtain ⟨hAgent, hUser⟩ := Words.cut (hv _ (by simp [Workspace.tuple]))
    (hw _ (by simp [Workspace.tuple])) hList
  rw [Workspace.tuple, Workspace.tuple, String.ext hTenant, String.ext hSubscription,
    String.ext hAgent, String.ext hUser]

theorem eq_of_sourceName {dataRoot : Path} {v w : Workspace} (hv : v.SlashFree) (hw : w.SlashFree)
    (hRoot : v.Rooted dataRoot) (hRoot' : w.Rooted dataRoot) (h : v.sourceName = w.sourceName) :
    v = w := by
  have hTuple := sourceName_injective hv hw h
  obtain ⟨t, s, a, u, root⟩ := v
  obtain ⟨t', s', a', u', root'⟩ := w
  simp only [Workspace.tuple, List.cons.injEq, and_true] at hTuple
  obtain ⟨rfl, rfl, rfl, rfl⟩ := hTuple
  exact congrArg (Workspace.mk t s a u) (hRoot.trans hRoot'.symm)

theorem sourceNames_nodup {fs : Fs} (h : fs.SlashFree) (dataRoot : Path) :
    ((discover fs dataRoot).map Workspace.sourceName).Nodup := by
  refine (discover_nodup fs dataRoot).map_on ?_
  intro v hv w hw hName
  exact eq_of_sourceName (slashFree_of_mem_discover h hv) (slashFree_of_mem_discover h hw)
    (mem_discover.mp hv).2 (mem_discover.mp hw).2 hName

def learningKey (name : String) : String := "learning:" ++ name

theorem learningKey_injective {name name' : String} (h : learningKey name = learningKey name') :
    name = name' := by
  have hList := congrArg String.toList h
  simp only [learningKey, String.toList_append, List.append_cancel_left_eq] at hList
  exact String.ext hList

theorem sourceName_ne_learningKey (w : Workspace) (name : String) :
    w.sourceName ≠ learningKey name := by
  intro h
  have hHead := congrArg (fun s => s.toList.head?) h
  simp [sourceName_toList, learningKey, String.toList_append] at hHead

end HarnessSphere
