import Mathlib.Data.Finset.Card
import HarnessSphere.Collectors.Series

/-! # The skill total and the skill series

The total counts skill directories, the series are keyed by the name of the skill. The two agree
where no two skill directories of a workspace go by one name, and nowhere else.
-/

namespace HarnessSphere

theorem dedup_nodup {names : List String} (hSorted : names.Pairwise (· ≤ ·)) :
    (dedup names).Nodup := by
  have hChain : (dedup names).IsChain (· ≠ ·) := names.isChain_destutter (· ≠ ·)
  have hDedup : (dedup names).Pairwise (· ≤ ·) := hSorted.sublist (names.destutter_sublist (· ≠ ·))
  generalize dedup names = l at hChain hDedup
  induction l with
  | nil => exact List.nodup_nil
  | cons a l ih =>
    obtain ⟨hHead, hTail⟩ := List.pairwise_cons.mp hDedup
    refine List.nodup_cons.mpr ⟨fun hMem => ?_, ih hChain.of_cons hTail⟩
    -- the first of the others is at least the head and at most every other one
    cases l with
    | nil => cases hMem
    | cons b l =>
      have hNe : a ≠ b := (List.isChain_cons_cons.mp hChain).1
      apply hNe
      apply String.le_antisymm (hHead b List.mem_cons_self)
      obtain rfl | hRest := List.mem_cons.mp hMem
      · exact String.le_refl a
      · exact (List.pairwise_cons.mp hTail).1 a hRest

theorem length_dedup {names : List String} (hSorted : names.Pairwise (· ≤ ·)) :
    (dedup names).length = names.toFinset.card := by
  rw [← List.toFinset_card_of_nodup (dedup_nodup hSorted)]
  congr 1
  ext name
  rw [List.mem_toFinset, List.mem_toFinset, LearningCollector.mem_dedup]

namespace LearningCollector

/-- A directory that counts as a skill of the workspace, with the name it goes by. -/
def SkillDir (fs : Fs) (w : Workspace) (path : Path) (name : String) : Prop :=
  ∃ dir ∈ w.skillDirs fs, ∃ e ∈ fs.entries dir, path = e.path dir ∧
    fs.isDir path ∧ fs.isFile (path.join "SKILL.md") ∧ OsString.toStr e.fileName = some name

/-- No two skill directories of the workspace go by one name. -/
def OneDirPerSkill (fs : Fs) (w : Workspace) : Prop :=
  ∀ p q name, SkillDir fs w p name → SkillDir fs w q name → p = q

def skillNameSeries (signals : List Signal) : List Series :=
  ((gaugeWrites signals).map Prod.fst).filter fun s => s.1 = "harnesssphere.harness.skill"

/-- Both come from the signals of one tick: the total written, and how many different series of
the metric `harnesssphere.harness.skill` there are. -/
def SkillsAgree (fromStr : Json.FromStr) (fs : Fs) (c : LearningCollector) : Prop :=
  let signals := (collect fromStr fs c).2.1
  (c.series "harnesssphere.harness.skills", ((skillNameSeries signals).toFinset.card : F64)) ∈
    gaugeWrites signals

section Agreement

variable {fromStr : Json.FromStr}

def skillPaths (fs : Fs) (w : Workspace) : List (Path × String) :=
  (w.skillDirs fs).flatMap fun dir =>
    (fs.entries dir).filterMap fun e => (skillName fs dir e).map fun name => (e.path dir, name)

theorem mem_skillPaths {fs : Fs} {w : Workspace} {path : Path} {name : String} :
    (path, name) ∈ skillPaths fs w ↔ SkillDir fs w path name := by
  simp only [skillPaths, SkillDir, skillName, List.mem_flatMap, List.mem_filterMap,
    Option.map_eq_some_iff, Option.ite_none_right_eq_some, Bool.and_eq_true, Prod.mk.injEq]
  constructor
  · rintro ⟨dir, hDir, e, he, name, ⟨⟨hIsDir, hManifest⟩, hName⟩, rfl, rfl⟩
    exact ⟨dir, hDir, e, he, rfl, hIsDir, hManifest, hName⟩
  · rintro ⟨dir, hDir, e, he, rfl, hIsDir, hManifest, hName⟩
    exact ⟨dir, hDir, e, he, name, ⟨⟨hIsDir, hManifest⟩, hName⟩, rfl, rfl⟩

theorem skillPaths_names (fs : Fs) (w : Workspace) :
    (skillPaths fs w).map Prod.snd = (w.skillDirs fs).flatMap (skillsIn fs) := by
  rw [skillPaths, List.map_flatMap]
  congr 1
  funext dir
  rw [List.map_filterMap, skillsIn]
  congr 1
  funext e
  cases skillName fs dir e <;> rfl

theorem skillPaths_nodup (fs : Fs) (w : Workspace) : (skillPaths fs w).Nodup := by
  apply fs.nodup_flatMap_entries (childrenWith_nodup _ _ _ _ _) Prod.fst
  intro dir e x hx
  obtain ⟨name, -, rfl⟩ := Option.map_eq_some_iff.mp hx
  rfl

theorem skillNames_nodup_iff (fs : Fs) (w : Workspace) :
    ((w.skillDirs fs).flatMap (skillsIn fs)).Nodup ↔ OneDirPerSkill fs w := by
  rw [← skillPaths_names, List.nodup_map_iff_inj_on (skillPaths_nodup fs w)]
  constructor
  · intro h p q name hp hq
    have hEq := h _ (mem_skillPaths.mpr hp) _ (mem_skillPaths.mpr hq) rfl
    exact congrArg Prod.fst hEq
  · rintro h ⟨p, name⟩ hp ⟨q, name'⟩ hq rfl
    rw [h p q name (mem_skillPaths.mp hp) (mem_skillPaths.mp hq)]

theorem skillNames_eq (fs : Fs) (c : LearningCollector) :
    (gather fromStr fs c).skillNames =
      dedup (((c.workspace.skillDirs fs).flatMap (skillsIn fs)).insertionSort (· ≤ ·)) := by
  rw [gather_eq]

theorem skills_eq (fs : Fs) (c : LearningCollector) :
    (gather fromStr fs c).skills = ((c.workspace.skillDirs fs).flatMap (skillsIn fs)).length := by
  rw [gather_eq]
  exact Nat.zero_add _

theorem gather_skillNames_nodup (fs : Fs) (c : LearningCollector) :
    (gather fromStr fs c).skillNames.Nodup := by
  rw [skillNames_eq]
  exact dedup_nodup (List.pairwise_insertionSort _ _)

theorem skillNameSeries_signals (c : LearningCollector) (out : Counts) :
    skillNameSeries (c.signals out) = out.skillNames.map c.skillSeries := by
  rw [skillNameSeries, writes_signals, List.map_append, List.filter_append, List.map_map]
  have hTotals : ((totals out).map (Prod.fst ∘ fun t => (c.series t.1, (t.2 : F64)))).filter
      (fun s => s.1 = "harnesssphere.harness.skill") = [] := by
    simp [totals, series, Workspace.series]
  rw [hTotals, List.nil_append, List.map_map, List.filter_eq_self.mpr]
  · rfl
  · intro s hs
    obtain ⟨name, -, rfl⟩ := List.mem_map.mp hs
    rfl

theorem card_skillNameSeries (fs : Fs) (c : LearningCollector) :
    (skillNameSeries (collect fromStr fs c).2.1).toFinset.card =
      ((c.workspace.skillDirs fs).flatMap (skillsIn fs)).toFinset.card := by
  have hNodup : ((gather fromStr fs c).skillNames.map c.skillSeries).Nodup :=
    (gather_skillNames_nodup fs c).map_on fun _ _ _ _ h => c.skillSeries_injective h
  have hSorted := List.perm_insertionSort (· ≤ ·) ((c.workspace.skillDirs fs).flatMap (skillsIn fs))
  rw [collect, skillNameSeries_signals, List.toFinset_card_of_nodup hNodup, List.length_map,
    skillNames_eq, length_dedup (List.pairwise_insertionSort _ _), List.toFinset_eq_of_perm _ _ hSorted]

theorem skills_total_iff {c : LearningCollector} {out : Counts} {n : ℕ} :
    (c.series "harnesssphere.harness.skills", (n : F64)) ∈ gaugeWrites (c.signals out) ↔
      n = out.skills := by
  rw [mem_writes_signals]
  simp [totals, series, skillSeries, Workspace.series_eq_iff]

theorem skillsAgree_iff_nodup (fs : Fs) (c : LearningCollector) :
    SkillsAgree fromStr fs c ↔ ((c.workspace.skillDirs fs).flatMap (skillsIn fs)).Nodup := by
  unfold SkillsAgree
  dsimp only
  rw [card_skillNameSeries, collect, skills_total_iff, skills_eq]
  exact Multiset.toFinset_card_eq_card_iff_nodup (m := Multiset.ofList _)

end Agreement

/-- The total and the series agree exactly where no two skill directories go by one name. -/
theorem skills_agree_iff (fromStr : Json.FromStr) (fs : Fs) (c : LearningCollector) :
    SkillsAgree fromStr fs c ↔ OneDirPerSkill fs c.workspace :=
  (skillsAgree_iff_nodup fs c).trans (skillNames_nodup_iff fs c.workspace)

def skillManifest (workspace name : String) : Path :=
  (((sampleWorkspace.root.join workspace).join "skills").join name).join "SKILL.md"

/-- The skill `tidy` in two sibling workspaces. -/
def tidyTwice : Disk where
  dirs := []
  files := [(skillManifest "workspace" "tidy", []), (skillManifest "workspace-chat" "tidy", [])]

theorem a_skill_in_two_siblings_counts_twice :
    ¬ SkillsAgree sampleFromStr tidyTwice.fs (.new sampleWorkspace "picoclaw" 60) := by
  rw [skillsAgree_iff_nodup]
  decide

end LearningCollector

end HarnessSphere
