import HarnessSphere.Composition.Agreement

/-! # Scans in which calls fail

A directory that cannot be read counts as empty, so a failed call on the way to a workspace looks to
discovery as if the workspace were gone. No call elsewhere in the tree does.
-/

namespace HarnessSphere

open Machine

/-- A tree of directories in which every call succeeds: what is below a directory is listed in it. -/
structure Tree where
  fs : Fs
  whole : ∀ p name, fs.isDir (p.join name) → fs.Listed p name ∧ fs.isDir p

structure Failures where
  readDir : Path → Bool
  isDir : Path → Bool

/-- What a scan sees of a tree when some of its calls fail. -/
def Tree.seen (tree : Tree) (failures : Failures) : Fs where
  readDir p := if failures.readDir p then none else tree.fs.readDir p
  metadata p := if failures.isDir p then none else tree.fs.metadata p
  openFile := tree.fs.openFile

theorem Tree.listed_seen {tree : Tree} {failures : Failures} {p : Path} {name : String} :
    (tree.seen failures).Listed p name ↔ failures.readDir p = false ∧ tree.fs.Listed p name := by
  cases h : failures.readDir p <;> simp [Fs.Listed, Fs.entries, seen, h]

theorem Tree.isDir_seen {tree : Tree} {failures : Failures} {p : Path} :
    (tree.seen failures).isDir p ↔ failures.isDir p = false ∧ tree.fs.isDir p := by
  cases h : failures.isDir p <;> simp [Fs.isDir, seen, h]

theorem Tree.slashFree_seen {tree : Tree} (h : tree.fs.SlashFree) (failures : Failures) :
    (tree.seen failures).SlashFree := by
  intro p e he
  apply h p e
  cases hFails : failures.readDir p with
  | false => simpa [Fs.entries, seen, hFails] using he
  | true => simp [Fs.entries, seen, hFails] at he

/-- Some call a scan makes on its way to the workspace fails. -/
def Failures.onTheWay (failures : Failures) (dataRoot : Path) (w : Workspace) : Prop :=
  ∃ level ∈ w.levels dataRoot, failures.readDir level.1 ∨ failures.isDir (level.1.join level.2)

theorem Tree.levels_of_isDir {tree : Tree} {dataRoot : Path} {w : Workspace}
    (h : tree.fs.isDir ((w.usersDir dataRoot).join w.user)) :
    ∀ level ∈ w.levels dataRoot,
      tree.fs.Listed level.1 level.2 ∧ tree.fs.isDir (level.1.join level.2) := by
  obtain ⟨hUser, hUsers⟩ := tree.whole _ _ h
  have hAgentDir := (tree.whole _ _ hUsers).2
  obtain ⟨hAgent, hAgents⟩ := tree.whole _ _ hAgentDir
  have hSubscriptionDir := (tree.whole _ _ hAgents).2
  obtain ⟨hSubscription, hSubscriptions⟩ := tree.whole _ _ hSubscriptionDir
  have hTenantDir := (tree.whole _ _ hSubscriptions).2
  have hTenant := (tree.whole _ _ hTenantDir).1
  simp only [Workspace.levels, List.forall_mem_cons, List.not_mem_nil, false_implies, implies_true,
    and_true]
  exact ⟨⟨hTenant, hTenantDir⟩, ⟨hSubscription, hSubscriptionDir⟩, ⟨hAgent, hAgentDir⟩, hUser, h⟩

theorem notMem_discover_seen_iff {tree : Tree} {failures : Failures} {dataRoot : Path} {w : Workspace}
    (hRoot : w.Rooted dataRoot) :
    w ∉ discover (tree.seen failures) dataRoot ↔
      tree.fs.isDir w.root = false ∨ failures.onTheWay dataRoot w := by
  have hMem : w ∈ discover (tree.seen failures) dataRoot ↔
      ∀ level ∈ w.levels dataRoot, (failures.readDir level.1 = false ∧
        failures.isDir (level.1.join level.2) = false) ∧
        tree.fs.Listed level.1 level.2 ∧ tree.fs.isDir (level.1.join level.2) := by
    rw [mem_discover, and_iff_left hRoot]
    refine forall₂_congr fun level _ => ?_
    rw [Tree.listed_seen, Tree.isDir_seen]
    tauto
  constructor
  · intro hMissed
    by_contra hFine
    obtain ⟨hDir, hCalls⟩ := not_or.mp hFine
    rw [Bool.not_eq_false, hRoot] at hDir
    refine hMissed (hMem.mpr fun level hLevel => ⟨?_, Tree.levels_of_isDir hDir level hLevel⟩)
    have hCall := fun hFails => hCalls ⟨level, hLevel, hFails⟩
    simpa using hCall
  · rintro hFails hFound
    have hLevels := hMem.mp hFound
    rcases hFails with hGone | ⟨level, hLevel, hCall⟩
    · have hUser := (hLevels (w.usersDir dataRoot, w.user) (by simp [Workspace.levels])).2.2
      rw [← hRoot, hGone] at hUser
      cases hUser
    · obtain ⟨⟨hRead, hStat⟩, -⟩ := hLevels level hLevel
      simp [hRead, hStat] at hCall

theorem mem_removals {known current : Table String Workspace} {name : String} :
    .remove name ∈ removals known current ↔
      ∃ key ∈ known, key ∉ current ∧ (name = key ∨ name = learningKey key) := by
  simp only [removals, List.mem_flatMap, AList.mem_keys]
  refine exists_congr fun key => and_congr_right fun _ => ?_
  split <;> simp_all

theorem remove_notMem_additions (d : Discovery) (known current : Table String Workspace)
    (name : String) : .remove name ∉ d.additions known current := by
  simp only [Discovery.additions, List.mem_flatMap, not_exists, not_and]
  rintro ⟨key, w⟩ -
  dsimp only
  split <;> simp

/-- Every workspace that is known was found by a scan, and stands under its source name. -/
def FoundBefore (dataRoot : Path) (known : Table String Workspace) : Prop :=
  ∀ name w, known.lookup name = some w → name = w.sourceName ∧ ∃ fs, w ∈ discover fs dataRoot

theorem foundBefore_of_scan {fs : Fs} {dataRoot : Path} {current : Table String Workspace}
    (h : current.entries.Perm (byName (discover fs dataRoot)).entries) :
    FoundBefore dataRoot current := by
  intro name w hw
  rw [AList.perm_lookup h] at hw
  obtain ⟨hName, hFound⟩ := of_lookup_byName hw
  exact ⟨hName, fs, hFound⟩

theorem foundBefore_of_reaches {d : Discovery} {criticalThreshold : UInt32}
    {boot : List SourceDescriptor} {s : ControlPlane}
    (h : Reaches (ControlPlane.step d) (.new criticalThreshold boot) s) :
    FoundBefore d.dataRoot s.known := by
  refine (h.invariant (I := fun s => FoundBefore d.dataRoot s.known ∧ FoundBefore d.dataRoot s.target)
    ⟨?_, ?_⟩ ?_).1
  · intro name w hw
    cases hw
  · intro name w hw
    cases hw
  · rintro a e b ⟨hKnown, hTarget⟩ hStep
    cases ControlPlane.act_of_step hStep with
    | scanned fs known current hScan hOrder hCurrent =>
      refine ⟨fun name w hw => ?_, foundBefore_of_scan hCurrent⟩
      exact hKnown name w ((AList.perm_lookup hOrder).symm.trans hw)
    | sent current cmd rest hScan =>
      rw [ControlPlane.target, hScan] at hTarget
      exact ⟨hKnown, hTarget⟩
    | published current hScan =>
      rw [ControlPlane.target, hScan] at hTarget
      exact ⟨hTarget, hTarget⟩
    | received cmd queue supervisor hQueue hStep' => exact ⟨hKnown, hTarget⟩
    | supervised e supervisor hOther hStep' => exact ⟨hKnown, hTarget⟩

theorem FoundBefore.keyed {dataRoot : Path} {known : Table String Workspace}
    (h : FoundBefore dataRoot known) : Keyed known := fun name w hw => (h name w hw).1

theorem remove_mem_commands_iff (d : Discovery) {known current : Table String Workspace}
    (hKnown : Keyed known) {name key : String} (hName : name ∈ known)
    (hKey : key = name ∨ key = learningKey name) :
    .remove key ∈ d.additions known current ++ removals known current ↔ name ∉ current := by
  rw [List.mem_append, or_iff_right (remove_notMem_additions d known current key), mem_removals]
  constructor
  · rintro ⟨other, hOther, hGone, hEq⟩
    have hSame : name = other := by
      rcases hKey with rfl | rfl
      · exact hEq.resolve_right (hKnown.ne_learningKey hName other)
      · rcases hEq with hEq | hEq
        · exact absurd hEq.symm (hKnown.ne_learningKey hOther name)
        · exact learningKey_injective hEq
    exact hSame ▸ hGone
  · intro hGone
    exact ⟨name, hName, hGone, hKey⟩

/-- Discovery asks for the removal of a known workspace only if its directory is gone or a call on the
way to it has failed; and then it always does, names being free of slashes. -/
theorem removed_iff_gone_or_unread (d : Discovery) (tree : Tree) (failures : Failures)
    (s s' : ControlPlane) (known current : Table String Workspace)
    (hFound : FoundBefore d.dataRoot s.known)
    (hStep : s.step d (.scanned (tree.seen failures) known current) = some s') (name key : String)
    (w : Workspace) (hKnown : s.known.lookup name = some w)
    (hKey : key = name ∨ key = learningKey name) :
    (.remove key ∈ s'.unsent →
      tree.fs.isDir w.root = false ∨ failures.onTheWay d.dataRoot w) ∧
    (tree.fs.SlashFree → w.SlashFree →
      tree.fs.isDir w.root = false ∨ failures.onTheWay d.dataRoot w → .remove key ∈ s'.unsent) := by
  obtain ⟨rfl, fs, hScan⟩ := hFound name w hKnown
  have hRoot : w.Rooted d.dataRoot := (mem_discover.mp hScan).2
  have hName : w.sourceName ∈ s.known := AList.lookup_isSome.mp (hKnown ▸ rfl)
  cases ControlPlane.act_of_step hStep with
  | scanned _ _ _ hWaiting hOrder hCurrent =>
    have hCommand : .remove key ∈ d.additions known current ++ removals known current ↔
        w.sourceName ∉ (discover (tree.seen failures) d.dataRoot).map Workspace.sourceName := by
      rw [remove_mem_commands_iff d (hFound.keyed.of_perm hOrder)
        ((AList.mem_of_perm hOrder).mpr hName) hKey, AList.mem_of_perm hCurrent, mem_byName]
    constructor
    · intro hRemove
      apply (notMem_discover_seen_iff hRoot).mp
      exact fun hSeen => hCommand.mp hRemove (List.mem_map_of_mem hSeen)
    · intro hTree hw hFails
      refine hCommand.mpr fun hSeen => ?_
      obtain ⟨v, hv, hEq⟩ := List.mem_map.mp hSeen
      have hFree := slashFree_of_mem_discover (Tree.slashFree_seen hTree failures) hv
      obtain rfl := eq_of_sourceName hFree hw (mem_discover.mp hv).2 hRoot hEq
      exact (notMem_discover_seen_iff hRoot).mpr hFails hv

def Disk.tree (disk : Disk) : Tree where
  fs := disk.fs
  whole p name hDir := by
    have hBelow : ∃ q ∈ disk.paths, p.join name <+: q := by
      simp only [isDir_fs, isDir, Bool.or_eq_true, List.any_eq_true, Bool.and_eq_true,
        List.isPrefixOf_iff_prefix, decide_eq_true_eq] at hDir
      rcases hDir with hDir | ⟨q, hq, hPrefix, -⟩
      · exact ⟨_, List.mem_append_left _ hDir, List.prefix_refl _⟩
      · exact ⟨q, hq, hPrefix⟩
    obtain ⟨_, hq, rest, rfl⟩ := hBelow
    have hParent : disk.isDir p := by
      simp only [isDir, Bool.or_eq_true, List.any_eq_true]
      exact .inr ⟨_, hq, by simp [Path.join, List.isPrefixOf_iff_prefix]⟩
    have hName : OsString.ofStr name ∈ disk.childNames p :=
      List.mem_dedup.mpr (List.mem_filterMap.mpr
        ⟨_, hq, by simp [Path.join, List.isPrefixOf_iff_prefix]⟩)
    refine ⟨⟨disk.entry p (OsString.ofStr name), ?_, rfl⟩, (isDir_fs disk p).trans hParent⟩
    simp only [Fs.entries, Disk.fs, hParent, if_true, Option.map_some, Option.getD_some]
    exact List.mem_map_of_mem hName

section Sample

def tenantsUnread : Failures where
  readDir p := p = Workspace.tenantsDir sampleDiscovery.dataRoot
  isDir _ := false

theorem a_missed_workspace_was_unread : ∃ s s' : ControlPlane,
    s.step sampleDiscovery (.scanned ((sampleDisk []).tree.seen tenantsUnread)
      (byName [sampleWorkspace]) ∅) = some s' ∧
    .remove sampleWorkspace.sourceName ∈ s'.unsent ∧
    tenantsUnread.onTheWay sampleDiscovery.dataRoot sampleWorkspace := by
  have hSome : ((exec (ControlPlane.step sampleDiscovery)
      (.new sampleConfig.criticalThreshold sampleBoot) oneWorkspaceFound).bind fun s =>
        (s.step sampleDiscovery (.scanned ((sampleDisk []).tree.seen tenantsUnread)
          (byName [sampleWorkspace]) ∅)).map fun s' =>
            (s.known.lookup sampleWorkspace.sourceName,
              decide (.remove sampleWorkspace.sourceName ∈ s'.unsent))) =
      some (some sampleWorkspace, true) := by decide
  obtain ⟨s, hExec, hSome⟩ := Option.bind_eq_some_iff.mp hSome
  obtain ⟨s', hStep, hBoth⟩ := Option.map_eq_some_iff.mp hSome
  obtain ⟨hKnown, hRemove⟩ := Prod.mk.inj hBoth
  have hSent : .remove sampleWorkspace.sourceName ∈ s'.unsent := of_decide_eq_true hRemove
  have hFound := foundBefore_of_reaches ⟨_, run_of_exec hExec⟩
  have hEither := (removed_iff_gone_or_unread sampleDiscovery (sampleDisk []).tree tenantsUnread s s' _
    _ hFound hStep _ _ sampleWorkspace hKnown (.inl rfl)).1 hSent
  have hThere : (sampleDisk []).tree.fs.isDir sampleWorkspace.root := by decide
  exact ⟨s, s', hStep, hSent, hEither.resolve_left (by simp [hThere])⟩

/-- The workspace found by the first scan is still there in the second, which cannot list the tenants. -/
theorem a_failed_listing_retires_a_living_workspace :
    ((exec (ControlPlane.step sampleDiscovery) (.new sampleConfig.criticalThreshold sampleBoot)
      (oneWorkspaceFound ++ [.scanned ((sampleDisk []).tree.seen tenantsUnread)
        (byName [sampleWorkspace]) ∅, .sent])).any fun s =>
          .remove sampleWorkspace.sourceName ∈ s.queue) = true ∧
      (sampleDisk []).tree.fs.isDir sampleWorkspace.root := by
  decide

end Sample

end HarnessSphere
