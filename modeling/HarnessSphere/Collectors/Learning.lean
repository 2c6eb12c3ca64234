import Mathlib.Algebra.Group.Prod
import Mathlib.Data.List.Destutter
import HarnessSphere.Library.Table
import HarnessSphere.Domain.Signal
import HarnessSphere.Collectors.Workspace

/-! # The learning collector

It keeps nothing between ticks: skills, memory files and graph records are counted afresh from the
disk each time. Every counting step touches its own fields only.
-/

namespace HarnessSphere

structure Counts where
  skills : Nat
  skillNames : List String
  memoryFiles : Nat
  memoryBytes : Nat
  entities : Nat
  relations : Nat
  observations : Nat

instance : Inhabited Counts := ⟨⟨0, [], 0, 0, 0, 0, 0⟩⟩

structure LearningCollector where
  descriptor : SourceDescriptor
  workspace : Workspace
  source : String

abbrev GraphTally := ℕ × ℕ × ℕ

def Counts.graph (out : Counts) : GraphTally := (out.entities, out.relations, out.observations)

/-- `Vec::dedup`, which drops an element equal to the one before it. -/
def dedup (names : List String) : List String := names.destutter (· ≠ ·)

namespace LearningCollector

section Code

variable (fromStr : Json.FromStr)

def new (workspace : Workspace) (source : String) (interval : Duration) : LearningCollector where
  descriptor := ⟨"learning:" ++ workspace.sourceName, .harness, .optional, interval⟩
  workspace := workspace
  source := source

def tag (c : LearningCollector) (m : Metric) : Metric := c.workspace.tag c.source m

def countSkill (fs : Fs) (dir : Path) (out : Counts) (e : DirEntry) : Counts :=
  let path := e.path dir
  if !fs.isDir path || !fs.isFile (path.join "SKILL.md") then out
  else
    match OsString.toStr e.fileName with
    | none => out
    | some name => { out with skills := out.skills + 1, skillNames := out.skillNames ++ [name] }

def countSkills (fs : Fs) (out : Counts) (dir : Path) : Counts :=
  (fs.entries dir).foldl (countSkill fs dir) out

def countMemoryFile (out : Counts) (e : DirEntry) : Counts :=
  match e.metadata with
  | none => out
  | some m =>
    if !m.isFile || m.len = 0 then out
    else
      { out with memoryFiles := out.memoryFiles + 1, memoryBytes := out.memoryBytes + m.len }

def countMemory (fs : Fs) (out : Counts) (dir : Path) : Counts :=
  (fs.entries dir).foldl countMemoryFile out

def countLine (out : Counts) (line : List Char) : Counts :=
  let line := trim line
  if line = [] then out
  else
    match fromStr line with
    | none => out
    | some v =>
      match (v.get "type").bind Json.Value.asStr with
      | some "entity" =>
        let out := { out with entities := out.entities + 1 }
        match (v.get "observations").bind Json.Value.asArray with
        | none => out
        | some obs => { out with observations := out.observations + obs.length }
      | some "relation" => { out with relations := out.relations + 1 }
      | _ => out

def countGraph (fs : Fs) (out : Counts) (path : Path) : Counts :=
  match fs.readToString path with
  | none => out
  | some raw => (lines raw).foldl (countLine fromStr) out

def gather (fs : Fs) (c : LearningCollector) : Counts :=
  let out := (c.workspace.skillDirs fs).foldl (countSkills fs) default
  let out := (c.workspace.memoryDirs fs).foldl (countMemory fs) out
  let out := (c.workspace.graphFiles fs).foldl (countGraph fromStr fs) out
  { out with skillNames := dedup (out.skillNames.insertionSort (· ≤ ·)) }

def signals (c : LearningCollector) (out : Counts) : List Signal :=
  ([("harnesssphere.harness.skills", out.skills),
    ("harnesssphere.harness.memory.files", out.memoryFiles),
    ("harnesssphere.graph.entities", out.entities),
    ("harnesssphere.graph.relations", out.relations),
    ("harnesssphere.graph.observations", out.observations)].map fun (name, value) =>
      (c.tag (.now name .gauge value)).intoSignal) ++
  [((c.tag (.now "harnesssphere.harness.memory.bytes" .gauge out.memoryBytes)).withUnit
    "By").intoSignal] ++
  out.skillNames.map fun name =>
    ((c.tag (.now "harnesssphere.harness.skill" .gauge 1)).attr "skill.name" (.str name)).intoSignal

def probe (fs : Fs) (c : LearningCollector) : ProbeResult := c.workspace.probe fs

def collect (fs : Fs) (c : LearningCollector) :
    LearningCollector × List Signal × Except CollectError Unit :=
  (c, c.signals (gather fromStr fs c), .ok ())

def retire (c : LearningCollector) : List Signal :=
  ["harnesssphere.harness.skills", "harnesssphere.harness.memory.files",
    "harnesssphere.harness.memory.bytes", "harnesssphere.graph.entities",
    "harnesssphere.graph.relations", "harnesssphere.graph.observations"].map fun name =>
      (c.tag (.now name .gauge 0)).intoSignal

end Code

section Counting

variable (fromStr : Json.FromStr)

/-- The name under which an entry of a skill directory counts. -/
def skillName (fs : Fs) (dir : Path) (e : DirEntry) : Option String :=
  if fs.isDir (e.path dir) && fs.isFile ((e.path dir).join "SKILL.md") then
    OsString.toStr e.fileName
  else none

def skillsIn (fs : Fs) (dir : Path) : List String := (fs.entries dir).filterMap (skillName fs dir)

/-- The sizes of the files of a memory directory, empty ones included. -/
def memorySizes (fs : Fs) (dir : Path) : List Nat :=
  (fs.entries dir).filterMap fun e => e.metadata.bind fun m => if m.isFile then some m.len else none

def graphRecord (line : List Char) : GraphTally :=
  if trim line = [] then 0
  else
    match fromStr (trim line) with
    | none => 0
    | some v =>
      match (v.get "type").bind Json.Value.asStr with
      | some "entity" =>
        (1, 0, (((v.get "observations").bind Json.Value.asArray).map List.length).getD 0)
      | some "relation" => (0, 1, 0)
      | _ => 0

/-- What a graph file adds: the records of its lines, or nothing where it cannot be read as text. -/
def graphOf (fs : Fs) (path : Path) : GraphTally :=
  match fs.readToString path with
  | none => 0
  | some raw => ((lines raw).map (graphRecord fromStr)).sum

end Counting

end LearningCollector

namespace Counts

def addSkills (out : Counts) (names : List String) : Counts :=
  { out with skills := out.skills + names.length, skillNames := out.skillNames ++ names }

def addMemory (out : Counts) (sizes : List Nat) : Counts :=
  { out with
    memoryFiles := out.memoryFiles + (sizes.filter (· ≠ 0)).length
    memoryBytes := out.memoryBytes + sizes.sum }

def addGraph (out : Counts) (g : GraphTally) : Counts :=
  { out with
    entities := out.entities + g.1
    relations := out.relations + g.2.1
    observations := out.observations + g.2.2 }

theorem addSkills_addSkills (out : Counts) (names more : List String) :
    (out.addSkills names).addSkills more = out.addSkills (names ++ more) := by
  simp [addSkills, Nat.add_assoc]

theorem addMemory_addMemory (out : Counts) (sizes more : List Nat) :
    (out.addMemory sizes).addMemory more = out.addMemory (sizes ++ more) := by
  simp [addMemory, Nat.add_assoc]

theorem addGraph_addGraph (out : Counts) (g more : GraphTally) :
    (out.addGraph g).addGraph more = out.addGraph (g + more) := by
  simp [addGraph, Nat.add_assoc]

@[simp] theorem addSkills_nil (out : Counts) : out.addSkills [] = out := by
  simp [addSkills]

@[simp] theorem addMemory_nil (out : Counts) : out.addMemory [] = out := rfl

@[simp] theorem addGraph_zero (out : Counts) : out.addGraph 0 = out := rfl

theorem foldl_addSkills {α : Type*} (names : α → List String) (xs : List α) (out : Counts) :
    xs.foldl (fun out x => out.addSkills (names x)) out = out.addSkills (xs.flatMap names) := by
  rw [List.flatMap_def]
  exact foldl_act addSkills_nil (fun out _ _ => addSkills_addSkills out _ _) names xs out

theorem foldl_addMemory {α : Type*} (sizes : α → List Nat) (xs : List α) (out : Counts) :
    xs.foldl (fun out x => out.addMemory (sizes x)) out = out.addMemory (xs.flatMap sizes) := by
  rw [List.flatMap_def]
  exact foldl_act addMemory_nil (fun out _ _ => addMemory_addMemory out _ _) sizes xs out

theorem foldl_addGraph {α : Type*} (tally : α → GraphTally) (xs : List α) (out : Counts) :
    xs.foldl (fun out x => out.addGraph (tally x)) out = out.addGraph (xs.map tally).sum :=
  foldl_act addGraph_zero (fun out _ _ => addGraph_addGraph out _ _) tally xs out

end Counts

namespace LearningCollector

section Gather

variable {fromStr : Json.FromStr}

theorem countSkill_eq (fs : Fs) (dir : Path) (out : Counts) (e : DirEntry) :
    countSkill fs dir out e = out.addSkills (skillName fs dir e).toList := by
  unfold countSkill skillName
  dsimp only
  generalize (e.path dir).join "SKILL.md" = manifest
  cases fs.isDir (e.path dir) <;> cases fs.isFile manifest <;>
    cases OsString.toStr e.fileName <;> simp [Counts.addSkills]

theorem countSkills_eq (fs : Fs) (out : Counts) (dir : Path) :
    countSkills fs out dir = out.addSkills (skillsIn fs dir) := by
  have hStep : countSkill fs dir = fun out e => out.addSkills (skillName fs dir e).toList := by
    funext out e
    exact countSkill_eq fs dir out e
  rw [countSkills, hStep, Counts.foldl_addSkills, skillsIn, List.filterMap_eq_flatMap_toList]

theorem countMemoryFile_eq (out : Counts) (e : DirEntry) :
    countMemoryFile out e = out.addMemory
      (e.metadata.bind fun m => if m.isFile then some m.len else none).toList := by
  unfold countMemoryFile
  cases e.metadata with
  | none => rfl
  | some m =>
    obtain hEmpty | hLen := eq_or_ne m.len 0 <;> cases hFile : m.isFile <;>
      simp_all [Counts.addMemory]

theorem countMemory_eq (fs : Fs) (out : Counts) (dir : Path) :
    countMemory fs out dir = out.addMemory (memorySizes fs dir) := by
  have hStep : countMemoryFile = fun out e => out.addMemory
      (e.metadata.bind fun m => if m.isFile then some m.len else none).toList := by
    funext out e
    exact countMemoryFile_eq out e
  rw [countMemory, hStep, Counts.foldl_addMemory, memorySizes, List.filterMap_eq_flatMap_toList]

theorem countLine_eq (out : Counts) (line : List Char) :
    countLine fromStr out line = out.addGraph (graphRecord fromStr line) := by
  unfold countLine graphRecord
  dsimp only
  split_ifs
  · rfl
  · cases fromStr (trim line) with
    | none => rfl
    | some v =>
      dsimp only
      split
      · cases (v.get "observations").bind Json.Value.asArray <;> rfl
      · rfl
      · rfl

theorem countGraph_eq (fs : Fs) (out : Counts) (path : Path) :
    countGraph fromStr fs out path = out.addGraph (graphOf fromStr fs path) := by
  have hStep : countLine fromStr = fun out line => out.addGraph (graphRecord fromStr line) := by
    funext out line
    exact countLine_eq out line
  unfold countGraph graphOf
  cases fs.readToString path with
  | none => rfl
  | some raw =>
    rw [hStep]
    exact Counts.foldl_addGraph _ _ out

theorem graph_countGraph (fs : Fs) (out : Counts) (path : Path) :
    (countGraph fromStr fs out path).graph = out.graph + graphOf fromStr fs path := by
  rw [countGraph_eq]
  rfl

/-- What is counted comes from the names of the skills, the sizes of the memory files and the records
of the graph files alone. -/
theorem gather_eq (fs : Fs) (c : LearningCollector) :
    gather fromStr fs c =
      let names := (c.workspace.skillDirs fs).flatMap (skillsIn fs)
      let sizes := (c.workspace.memoryDirs fs).flatMap (memorySizes fs)
      let graph := ((c.workspace.graphFiles fs).map (graphOf fromStr fs)).sum
      { (((default : Counts).addSkills names).addMemory sizes).addGraph graph with
        skillNames := dedup (names.insertionSort (· ≤ ·)) } := by
  have hSkills : countSkills fs = fun out dir => out.addSkills (skillsIn fs dir) := by
    funext out dir
    exact countSkills_eq fs out dir
  have hMemory : countMemory fs = fun out dir => out.addMemory (memorySizes fs dir) := by
    funext out dir
    exact countMemory_eq fs out dir
  have hGraph : countGraph fromStr fs = fun out path => out.addGraph (graphOf fromStr fs path) := by
    funext out path
    exact countGraph_eq fs out path
  rw [gather, hSkills, hMemory, hGraph, Counts.foldl_addSkills, Counts.foldl_addMemory,
    Counts.foldl_addGraph]
  rfl

end Gather

section Skills

variable {fromStr : Json.FromStr}

/-- A skill of the workspace on this disk: a directory with a manifest and a readable name. -/
def Skill (fs : Fs) (w : Workspace) (name : String) : Prop :=
  ∃ dir ∈ w.skillDirs fs, ∃ e ∈ fs.entries dir,
    fs.isDir (e.path dir) ∧ fs.isFile ((e.path dir).join "SKILL.md") ∧
      OsString.toStr e.fileName = some name

theorem skill_iff {fs : Fs} {w : Workspace} {name : String} :
    Skill fs w name ↔ name ∈ (w.skillDirs fs).flatMap (skillsIn fs) := by
  simp only [Skill, skillsIn, skillName, List.mem_flatMap, List.mem_filterMap,
    Option.ite_none_right_eq_some, Bool.and_eq_true, and_assoc]

theorem mem_dedup {names : List String} {name : String} : name ∈ dedup names ↔ name ∈ names := by
  have hTail (l : List String) (a : String) :
      name ∈ l.destutter' (· ≠ ·) a ↔ name = a ∨ name ∈ l := by
    induction l generalizing a with
    | nil => simp
    | cons b l ih =>
      obtain rfl | hab := eq_or_ne a b
      · rw [List.destutter'_cons_neg _ (by simp), ih]
        simp
      · rw [List.destutter'_cons_pos _ hab, List.mem_cons, ih, List.mem_cons]
  cases names with
  | nil => simp [dedup]
  | cons a l => simpa [dedup, List.destutter_cons'] using hTail l a

theorem mem_gather_skillNames {fs : Fs} {c : LearningCollector} {name : String} :
    name ∈ (gather fromStr fs c).skillNames ↔ Skill fs c.workspace name := by
  rw [gather_eq, skill_iff]
  exact mem_dedup.trans (List.mem_insertionSort _)

end Skills

section Writes

variable (c : LearningCollector)

def series (name : String) : Series := c.workspace.series c.source name []

def skillSeries (name : String) : Series :=
  c.workspace.series c.source "harnesssphere.harness.skill" [("skill.name", .str name)]

def totals (out : Counts) : List (String × ℕ) :=
  [("harnesssphere.harness.skills", out.skills),
    ("harnesssphere.harness.memory.files", out.memoryFiles),
    ("harnesssphere.graph.entities", out.entities),
    ("harnesssphere.graph.relations", out.relations),
    ("harnesssphere.graph.observations", out.observations),
    ("harnesssphere.harness.memory.bytes", out.memoryBytes)]

theorem skillSeries_injective {name name' : String} (h : c.skillSeries name = c.skillSeries name') :
    name = name' := by
  simpa [skillSeries, Workspace.series_eq_iff] using h

theorem writes_signals (out : Counts) :
    gaugeWrites (c.signals out) =
      ((totals out).map fun t => (c.series t.1, (t.2 : F64))) ++
        out.skillNames.map fun name => (c.skillSeries name, 1) := by
  rw [signals, gaugeWrites_append]
  congr 1
  rw [gaugeWrites, List.filterMap_map, ← List.filterMap_eq_map]
  rfl

theorem writes_retire :
    gaugeWrites c.retire =
      [(c.series "harnesssphere.harness.skills", 0), (c.series "harnesssphere.harness.memory.files", 0),
        (c.series "harnesssphere.harness.memory.bytes", 0), (c.series "harnesssphere.graph.entities", 0),
        (c.series "harnesssphere.graph.relations", 0),
        (c.series "harnesssphere.graph.observations", 0)] := rfl

theorem totals_mem_writes_retire {out : Counts} {t : String × ℕ} (h : t ∈ totals out) :
    (c.series t.1, 0) ∈ gaugeWrites c.retire := by
  rw [writes_retire]
  simp only [totals, List.mem_cons, List.not_mem_nil, or_false] at h
  rcases h with rfl | rfl | rfl | rfl | rfl | rfl <;> simp

theorem skillSeries_notMem_writes_retire (name : String) (v : F64) :
    (c.skillSeries name, v) ∉ gaugeWrites c.retire := by
  rw [writes_retire]
  simp [skillSeries, series, Workspace.series_eq_iff]

end Writes

end LearningCollector

end HarnessSphere
