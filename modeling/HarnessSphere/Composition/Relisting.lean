import HarnessSphere.Collectors.Content
import HarnessSphere.Composition.Walk

/-! # Listings in another order

The operating system lists a directory in any order, and in another one at the next tick. What the two
collectors of a workspace remember and emit over their whole life does not depend on it.
-/

namespace HarnessSphere

open SessionCollector

variable {fromStr : Json.FromStr}

namespace Fs.Relisted

variable {fs fs' : Fs} (h : fs.Relisted fs')
include h

theorem wholeFile : fs'.wholeFile = fs.wholeFile := by
  funext p
  rw [Fs.wholeFile, Fs.wholeFile, h.openFile]

theorem readToString : fs'.readToString = fs.readToString := by
  funext p
  rw [Fs.readToString, Fs.readToString, h.openFile]

theorem filterMap_perm {α : Type*} (dirs : List Path) (pick : Path → DirEntry → Option α) :
    (dirs.flatMap fun dir => (fs.entries dir).filterMap (pick dir)).Perm
      (dirs.flatMap fun dir => (fs'.entries dir).filterMap (pick dir)) :=
  List.Perm.flatMap_left dirs fun dir _ => (h.entries dir).filterMap (pick dir)

theorem present_perm (c : SessionCollector) : (c.present fs).Perm (c.present fs') := by
  rw [present, present, h.sessionDirs]
  exact h.filterMap_perm _ transcriptPath

theorem isCron (p : Path) : isCron fromStr fs' p = HarnessSphere.isCron fromStr fs p := by
  rw [HarnessSphere.isCron, HarnessSphere.isCron, h.readToString]

theorem readNew (state : FileState) (p : Path) (len : Nat) :
    readNew fromStr fs' state p len = HarnessSphere.readNew fromStr fs state p len := by
  have hBytes : fs'.readBytes = fs.readBytes := by
    funext q offset
    rw [Fs.readBytes, Fs.readBytes, h.wholeFile]
  rw [HarnessSphere.readNew, HarnessSphere.readNew, hBytes]

theorem revisit (p : Path) (old : Option FileState) :
    revisit fromStr fs' p old = SessionCollector.revisit fromStr fs p old := by
  rw [SessionCollector.revisit, SessionCollector.revisit, h.metadata]
  simp only [h.isCron, h.readNew]

theorem memories (w : Workspace) : SameMemories fromStr fs fs' w w where
  tenant := rfl
  subscription := rfl
  agent := rfl
  user := rfl
  skills := by
    have hName : LearningCollector.skillName fs' = LearningCollector.skillName fs := by
      funext dir e
      rw [LearningCollector.skillName, LearningCollector.skillName, h.isDir, h.isFile]
    rw [Workspace.skillDirs, Workspace.skillDirs, h.workspaceSubdirs]
    have hPerm := h.filterMap_perm (w.workspaceSubdirs fs "skills") (LearningCollector.skillName fs)
    refine hPerm.trans (.of_eq ?_)
    rw [← hName]
    rfl
  memory := by
    rw [Workspace.memoryDirs, Workspace.memoryDirs, h.workspaceSubdirs]
    exact h.filterMap_perm _ _
  graphs := by
    have hShape : graphShape fromStr fs' = graphShape fromStr fs := by
      funext path
      rw [graphShape, graphShape, h.readToString]
    rw [h.graphFiles, hShape]

end Fs.Relisted

section Runs

/-- Two collectors of one workspace that remember the same of each file. -/
structure Alike (c c' : SessionCollector) : Prop where
  workspace : c'.workspace = c.workspace
  source : c'.source = c.source
  lookup : ∀ p, c'.files.lookup p = c.files.lookup p

variable {fs fs' : Fs} {c c' : SessionCollector}

theorem Alike.present_perm (h : Alike c c') (hListed : fs.Relisted fs') :
    (c.present fs).Perm (c'.present fs') := by
  have hOwn : c'.present fs' = c.present fs' := by rw [present, present, h.workspace]
  rw [hOwn]
  exact hListed.present_perm c

theorem Alike.sessionDirs (h : Alike c c') (hListed : fs.Relisted fs') :
    c'.workspace.sessionDirs fs' = c.workspace.sessionDirs fs := by
  rw [h.workspace, hListed.sessionDirs]

theorem Alike.lookup_refresh (h : Alike c c') (hListed : fs.Relisted fs') (p : Path) :
    (refresh fromStr fs' c'.files (c'.present fs')).lookup p =
      (refresh fromStr fs c.files (c.present fs)).lookup p := by
  rw [SessionCollector.lookup_refresh _ _ (c'.present_nodup fs'),
    SessionCollector.lookup_refresh _ _ (c.present_nodup fs), hListed.revisit, h.lookup]
  simp only [(h.present_perm hListed).mem_iff]

/-- Tables that agree at each key sum up to the same, in whatever order they list their entries. -/
theorem sum_totals_congr {files files' : Table Path FileState}
    (h : ∀ p, files'.lookup p = files.lookup p) :
    SessionCollector.sum (totals files') = SessionCollector.sum (totals files) := by
  have hKeys : files'.keys.Perm files.keys := by
    apply (List.perm_ext_iff_of_nodup (AList.keys_nodup _) (AList.keys_nodup _)).mpr
    intro p
    rw [← AList.mem_keys, ← AList.mem_keys, ← AList.lookup_isSome, ← AList.lookup_isSome, h]
  rw [sum_totals_of_perm hKeys, sum_totals_of_perm (.refl files.keys)]
  simp only [h]

theorem Alike.collect (h : Alike c c') (hListed : fs.Relisted fs') :
    Alike (collect fromStr fs c).1 (SessionCollector.collect fromStr fs' c').1 := by
  refine ⟨?_, ?_, ?_⟩
  · rw [workspace_collect, workspace_collect, h.workspace]
  · rw [source_collect, source_collect, h.source]
  · intro p
    by_cases hDirs : c.workspace.sessionDirs fs = []
    · have hDirs' := (h.sessionDirs hListed).trans hDirs
      rw [SessionCollector.collect, SessionCollector.collect, if_pos hDirs, if_pos hDirs']
      exact h.lookup p
    · have hDirs' : c'.workspace.sessionDirs fs' ≠ [] := by rwa [h.sessionDirs hListed]
      rw [collect_of_dirs hDirs, collect_of_dirs hDirs']
      exact h.lookup_refresh hListed p

theorem Alike.emits (h : Alike c c') (hListed : fs.Relisted fs') :
    (SessionCollector.collect fromStr fs c).2.1.Perm
      (SessionCollector.collect fromStr fs' c').2.1 := by
  by_cases hDirs : c.workspace.sessionDirs fs = []
  · have hDirs' := (h.sessionDirs hListed).trans hDirs
    rw [SessionCollector.collect, SessionCollector.collect, if_pos hDirs, if_pos hDirs']
  · have hDirs' : c'.workspace.sessionDirs fs' ≠ [] := by rwa [h.sessionDirs hListed]
    have hSignals : c'.signals = c.signals := by
      funext t
      simp only [signals, tag, h.workspace, h.source]
    rw [collect_of_dirs hDirs, collect_of_dirs hDirs', hSignals]
    exact signals_perm c (sum_totals_congr (h.lookup_refresh hListed)).symm

theorem emissions_alike {ticks ticks' : List Fs} (hTicks : List.Forall₂ Fs.Relisted ticks ticks')
    (h : Alike c c') :
    List.Forall₂ List.Perm (emissions fromStr c ticks) (emissions fromStr c' ticks') := by
  induction hTicks generalizing c c' with
  | nil => exact .nil
  | cons hListed _ ih => exact .cons (h.emits hListed) (ih (h.collect hListed))

end Runs

/-- The order of the listings never shows: over any life of a workspace, however the disk changes from
tick to tick and whatever fails on it, both collectors emit the same at every tick in whichever order
each directory is listed at each tick. -/
theorem listing_order_never_shows (fromStr : Json.FromStr) (w : Workspace) (source : String)
    (interval : Duration) (ticks ticks' : List Fs) (h : List.Forall₂ Fs.Relisted ticks ticks') :
    List.Forall₂ List.Perm (emissions fromStr (.new w source interval) ticks)
        (emissions fromStr (.new w source interval) ticks') ∧
      List.Forall₂ (fun fs fs' =>
        (LearningCollector.collect fromStr fs (.new w source interval)).2.1 =
          (LearningCollector.collect fromStr fs' (.new w source interval)).2.1) ticks ticks' := by
  constructor
  · exact emissions_alike h ⟨rfl, rfl, fun _ => rfl⟩
  · refine h.imp fun fs fs' hListed => ?_
    rw [LearningCollector.collect, LearningCollector.collect,
      (hListed.memories w).gather source interval]

section Sample

def twoTranscripts : Fs :=
  (sampleDisk (["a.jsonl", "b.jsonl"].map fun name => (name, OsString.ofStr (saidLine "hi" ++ "\n")))).fs

theorem two_transcripts_in_both_orders :
    sampleCollector.present twoTranscripts ≠ sampleCollector.present twoTranscripts.reversed ∧
      List.Forall₂ List.Perm
        (emissions contentFromStr sampleCollector [twoTranscripts, twoTranscripts.reversed])
        (emissions contentFromStr sampleCollector
          [twoTranscripts.reversed, twoTranscripts.reversed.reversed]) :=
  ⟨by decide, (listing_order_never_shows contentFromStr sampleWorkspace "picoclaw" 60 _ _
    (.cons (relisted_reversed twoTranscripts)
      (.cons (relisted_reversed twoTranscripts.reversed) .nil))).1⟩

end Sample

end HarnessSphere
