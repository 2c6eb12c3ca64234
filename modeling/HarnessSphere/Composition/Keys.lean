import HarnessSphere.Collectors.Session
import HarnessSphere.Collectors.Skills
import HarnessSphere.Composition.Boot
import HarnessSphere.Composition.Names

/-! # What tells sources and series apart

The supervisor keys a source by its name, a backend keys a value by metric name and attributes. Both
keys carry the tuple of the workspace, and both tell workspaces apart by it.
-/

namespace HarnessSphere

section Sources

theorem bootNames_apart : ∀ name ∈ bootNames, ¬ "session:".toList <+: name.toList ∧
    ¬ "learning:".toList <+: name.toList := by
  decide

theorem sourceName_notMem_bootNames (w : Workspace) : w.sourceName ∉ bootNames := by
  intro h
  apply (bootNames_apart _ h).1
  rw [sourceName_toList]
  exact List.prefix_append _ _

theorem learningKey_notMem_bootNames (name : String) : learningKey name ∉ bootNames := by
  intro h
  apply (bootNames_apart _ h).2
  rw [learningKey, String.toList_append]
  exact List.prefix_append _ _

theorem sourceName_eq_of_tuple {v w : Workspace} (h : v.tuple = w.tuple) :
    v.sourceName = w.sourceName := by
  simp only [Workspace.tuple, List.cons.injEq, and_true] at h
  obtain ⟨hTenant, hSubscription, hAgent, hUser⟩ := h
  rw [Workspace.sourceName, Workspace.sourceName, hTenant, hSubscription, hAgent, hUser]

theorem sourceName_eq_iff {v w : Workspace} (hV : v.SlashFree) (hW : w.SlashFree) :
    v.sourceName = w.sourceName ↔ v.tuple = w.tuple :=
  ⟨sourceName_injective hV hW, sourceName_eq_of_tuple⟩

theorem learningKey_eq_iff {v w : Workspace} (hV : v.SlashFree) (hW : w.SlashFree) :
    learningKey v.sourceName = learningKey w.sourceName ↔ v.tuple = w.tuple := by
  rw [← sourceName_eq_iff hV hW]
  exact ⟨learningKey_injective, congrArg learningKey⟩

/-- A key of either kind stands for one tuple, and no two kinds of source share a key. -/
theorem registry_keys_identify_sources {v w : Workspace} (hV : v.SlashFree) (hW : w.SlashFree)
    (source source' : String) (interval interval' : Duration) :
    let session (u : Workspace) := (SessionCollector.new u source interval).descriptor.name
    let learning (u : Workspace) := (LearningCollector.new u source' interval').descriptor.name
    (v.sourceName = w.sourceName ↔ v.tuple = w.tuple) ∧
      (session v = v.sourceName ∧ learning w = "learning:" ++ session w) ∧
      (session v = session w ↔ v.tuple = w.tuple) ∧ (learning v = learning w ↔ v.tuple = w.tuple) ∧
      session v ≠ learning w ∧ ∀ name ∈ bootNames, session v ≠ name ∧ learning w ≠ name := by
  intro session learning
  have hSession (u : Workspace) : session u = u.sourceName := rfl
  have hLearning (u : Workspace) : learning u = learningKey u.sourceName := rfl
  refine ⟨sourceName_eq_iff hV hW, ⟨hSession v, hLearning w⟩, sourceName_eq_iff hV hW,
    learningKey_eq_iff hV hW, sourceName_ne_learningKey v w.sourceName, fun name hName => ⟨?_, ?_⟩⟩
  · rw [hSession]
    rintro rfl
    exact sourceName_notMem_bootNames v hName
  · rw [hLearning]
    rintro rfl
    exact learningKey_notMem_bootNames w.sourceName hName

def imitator (tenant : String) : Workspace where
  tenant := tenant
  subscription := "session:x"
  agent := "learning:session:host"
  user := "host"
  root := ["", "data"].map OsString.ofStr

theorem registry_keys_of_imitators :
    let session (u : Workspace) := (SessionCollector.new u "picoclaw" 60).descriptor.name
    let learning (u : Workspace) := (LearningCollector.new u "picoclaw" 60).descriptor.name
    let v := imitator "learning:session:a"
    let w := imitator "a"
    (v.sourceName = w.sourceName ↔ v.tuple = w.tuple) ∧
      (session v = v.sourceName ∧ learning w = "learning:" ++ session w) ∧
      (session v = session w ↔ v.tuple = w.tuple) ∧ (learning v = learning w ↔ v.tuple = w.tuple) ∧
      session v ≠ learning w ∧ ∀ name ∈ bootNames, session v ≠ name ∧ learning w ≠ name :=
  registry_keys_identify_sources (by simp [Workspace.SlashFree, Workspace.tuple, SlashFree, imitator])
    (by simp [Workspace.SlashFree, Workspace.tuple, SlashFree, imitator]) "picoclaw" "picoclaw" 60 60

end Sources

section Writes

/-- Nothing but metrics, each of a series of its own. -/
structure OneWriteEach (signals : List Signal) : Prop where
  metrics : ∀ s ∈ signals, ∃ m, s = .metric m
  series : ((gaugeWrites signals).map Prod.fst).Nodup

def SessionCollector.metricNames : List String :=
  ["harnesssphere.harness.messages", "harnesssphere.tool.calls", "harnesssphere.harness.sessions",
    "harnesssphere.harness.cron.sessions"]

def LearningCollector.metricNames : List String :=
  ["harnesssphere.harness.skills", "harnesssphere.harness.memory.files",
    "harnesssphere.graph.entities", "harnesssphere.graph.relations",
    "harnesssphere.graph.observations", "harnesssphere.harness.memory.bytes",
    "harnesssphere.harness.skill"]

/-- A series of the workspace under one of the names. -/
def Workspace.Tags (w : Workspace) (names : List String) (s : Series) : Prop :=
  ∃ source more, ∃ name ∈ names, s = w.series source name more

/-- What one tick of a collector of the workspace may emit: metrics under the collector's names, each
with the tags of the workspace, and no series twice. -/
structure TickOf (w : Workspace) (names : List String) (signals : List Signal) : Prop
    extends OneWriteEach signals where
  tagged : ∀ s ∈ (gaugeWrites signals).map Prod.fst, w.Tags names s

theorem Workspace.tuple_of_tags {v w : Workspace} {names names' : List String} {s : Series}
    (hV : v.Tags names s) (hW : w.Tags names' s) : v.tuple = w.tuple := by
  obtain ⟨source, more, name, -, rfl⟩ := hV
  obtain ⟨source', more', name', -, hEq⟩ := hW
  simp only [series, tags, Prod.mk.injEq, List.cons_append, List.cons.injEq, AttrValue.str.injEq,
    true_and] at hEq
  obtain ⟨-, hTenant, hSubscription, hAgent, hUser, -⟩ := hEq
  rw [tuple, tuple, hTenant, hSubscription, hAgent, hUser]

theorem Workspace.Tags.name_mem {w : Workspace} {names : List String} {s : Series}
    (h : w.Tags names s) : s.1 ∈ names := by
  obtain ⟨source, more, name, hName, rfl⟩ := h
  exact hName

theorem OneWriteEach.append {xs ys : List Signal} (hXs : OneWriteEach xs) (hYs : OneWriteEach ys)
    (hApart : ∀ s, s ∈ (gaugeWrites xs).map Prod.fst → s ∉ (gaugeWrites ys).map Prod.fst) :
    OneWriteEach (xs ++ ys) where
  metrics := by
    intro s hs
    obtain hs | hs := List.mem_append.mp hs
    · exact hXs.metrics s hs
    · exact hYs.metrics s hs
  series := by
    rw [gaugeWrites_append, List.map_append]
    refine List.nodup_append.mpr ⟨hXs.series, hYs.series, ?_⟩
    rintro s hs t ht rfl
    exact hApart s hs ht

theorem mem_series_flatMap {α : Type*} {l : List α} {signals : α → List Signal} {s : Series} :
    s ∈ (gaugeWrites (l.flatMap signals)).map Prod.fst ↔
      ∃ x ∈ l, s ∈ (gaugeWrites (signals x)).map Prod.fst := by
  rw [gaugeWrites, List.filterMap_flatMap, List.map_flatMap, List.mem_flatMap]
  rfl

/-- Ticks of workspaces with different tuples never meet in a series. -/
theorem oneWriteEach_flatMap {α : Type*} {l : List α} {workspace : α → Workspace}
    {names : List String} {signals : α → List Signal}
    (hTuples : (l.map fun x => (workspace x).tuple).Nodup)
    (hTick : ∀ x ∈ l, TickOf (workspace x) names (signals x)) : OneWriteEach (l.flatMap signals) := by
  induction l with
  | nil => exact ⟨by simp, List.nodup_nil⟩
  | cons x l ih =>
    obtain ⟨hHead, hTail⟩ := List.nodup_cons.mp hTuples
    have hFirst := hTick x List.mem_cons_self
    have hRest := fun y hy => hTick y (List.mem_cons_of_mem x hy)
    refine hFirst.append (ih hTail hRest) fun s hs hRests => ?_
    obtain ⟨y, hy, hSeries⟩ := mem_series_flatMap.mp hRests
    apply hHead
    have hTuple := Workspace.tuple_of_tags (hFirst.tagged s hs) ((hRest y hy).tagged s hSeries)
    exact List.mem_map.mpr ⟨y, hy, hTuple.symm⟩

namespace SessionCollector

variable (c : SessionCollector)

theorem tickOf_signals (t : SessionTotals) : TickOf c.workspace metricNames (c.signals t) where
  metrics := by
    intro s hs
    simp only [signals, List.mem_append, List.mem_map, List.mem_cons, List.not_mem_nil,
      or_false] at hs
    rcases hs with ⟨e, -, rfl⟩ | rfl | rfl | rfl <;> exact ⟨_, rfl⟩
  series := by
    -- roles are the keys of a table, and the totals go by names of their own
    have hRoles : (t.roles.table.entries.map fun e => c.messagesSeries e.1).Nodup := by
      have hKeys : (t.roles.table.entries.map Sigma.fst).Nodup := t.roles.table.keys_nodup
      have hSeries := hKeys.map fun _ _ h => c.messagesSeries_injective h
      rwa [List.map_map] at hSeries
    rw [writes_signals, List.map_append, List.map_map]
    refine List.nodup_append.mpr ⟨hRoles, ?_, ?_⟩
    · simp [toolCallsSeries, sessionsSeries, cronSessionsSeries, Workspace.series_eq_iff]
    · intro s hs s' hs'
      obtain ⟨e, -, rfl⟩ := List.mem_map.mp hs
      simp only [List.map_cons, List.map_nil, List.mem_cons, List.not_mem_nil, or_false] at hs'
      rcases hs' with rfl | rfl | rfl <;>
        simp [messagesSeries, toolCallsSeries, sessionsSeries, cronSessionsSeries,
          Workspace.series_eq_iff]
  tagged := by
    intro s hs
    obtain ⟨⟨s, v⟩, hWrite, rfl⟩ := List.mem_map.mp hs
    rcases emitted_signals.mp ⟨v, hWrite⟩ with ⟨role, -, rfl⟩ | rfl | rfl | rfl
    all_goals exact ⟨c.source, _, _, by simp [metricNames], rfl⟩

theorem tickOf_collect (fromStr : Json.FromStr) (fs : Fs) :
    TickOf c.workspace metricNames (collect fromStr fs c).2.1 := by
  rcases collect_cases fromStr fs c with ⟨-, e, hCollect⟩ | ⟨-, hCollect⟩ <;> rw [hCollect]
  · exact ⟨⟨by simp, List.nodup_nil⟩, by simp [gaugeWrites]⟩
  · exact c.tickOf_signals _

end SessionCollector

namespace LearningCollector

variable (c : LearningCollector)

theorem tickOf_signals {out : Counts} (hNames : out.skillNames.Nodup) :
    TickOf c.workspace metricNames (c.signals out) where
  metrics := by
    intro s hs
    simp only [signals, List.mem_append, List.mem_map, List.mem_singleton] at hs
    rcases hs with (⟨t, -, rfl⟩ | rfl) | ⟨name, -, rfl⟩ <;> exact ⟨_, rfl⟩
  series := by
    rw [writes_signals, List.map_append, List.map_map, List.map_map]
    refine List.nodup_append.mpr ⟨?_, ?_, ?_⟩
    · simp [totals, LearningCollector.series, Workspace.series_eq_iff]
    · exact hNames.map fun _ _ h => c.skillSeries_injective h
    · rintro s hs s' hs' rfl
      obtain ⟨t, -, hTotal⟩ := List.mem_map.mp hs
      obtain ⟨name, -, hSkill⟩ := List.mem_map.mp hs'
      exact c.skillSeries_ne_series name t.1 (hSkill.trans hTotal.symm)
  tagged := by
    intro s hs
    obtain ⟨⟨s, v⟩, hWrite, rfl⟩ := List.mem_map.mp hs
    rcases mem_writes_signals.mp hWrite with ⟨t, ht, rfl, -⟩ | ⟨name, -, rfl, -⟩
    · refine ⟨c.source, [], t.1, ?_, rfl⟩
      simp only [totals, List.mem_cons, List.not_mem_nil, or_false] at ht
      rcases ht with rfl | rfl | rfl | rfl | rfl | rfl <;> simp [metricNames]
    · exact ⟨c.source, _, _, by simp [metricNames], rfl⟩

theorem tickOf_collect (fromStr : Json.FromStr) (fs : Fs) :
    TickOf c.workspace metricNames (collect fromStr fs c).2.1 :=
  c.tickOf_signals (gather_skillNames_nodup fs c)

end LearningCollector

/-- Over workspaces with different tuples, one tick of each collector writes each series once. -/
theorem collectors_write_each_series_once (fromStr : Json.FromStr)
    (sessions : List (Fs × SessionCollector)) (learnings : List (Fs × LearningCollector))
    (hSessions : (sessions.map fun t => t.2.workspace.tuple).Nodup)
    (hLearnings : (learnings.map fun t => t.2.workspace.tuple).Nodup) :
    OneWriteEach
      ((sessions.flatMap fun t => (SessionCollector.collect fromStr t.1 t.2).2.1) ++
        learnings.flatMap fun t => (LearningCollector.collect fromStr t.1 t.2).2.1) := by
  refine (oneWriteEach_flatMap hSessions fun t _ => t.2.tickOf_collect fromStr t.1).append
    (oneWriteEach_flatMap hLearnings fun t _ => t.2.tickOf_collect fromStr t.1) fun s hs hs' => ?_
  obtain ⟨t, -, hSession⟩ := mem_series_flatMap.mp hs
  obtain ⟨t', -, hLearning⟩ := mem_series_flatMap.mp hs'
  have hName := ((t.2.tickOf_collect fromStr t.1).tagged s hSession).name_mem
  have hName' := ((t'.2.tickOf_collect fromStr t'.1).tagged s hLearning).name_mem
  simp only [SessionCollector.metricNames, List.mem_cons, List.not_mem_nil, or_false] at hName
  rcases hName with hName | hName | hName | hName <;> rw [hName] at hName' <;>
    simp [LearningCollector.metricNames] at hName'

theorem two_workspaces_write_each_series_once :
    let sibling : Workspace := { sampleWorkspace with user := "uuid-b" }
    OneWriteEach
      (([(oneUserMessage, SessionCollector.new sampleWorkspace "picoclaw" 60),
          (oneUserMessage, .new sibling "picoclaw" 60)].flatMap fun t =>
            (SessionCollector.collect sampleFromStr t.1 t.2).2.1) ++
        [(LearningCollector.tidyTwice.fs, LearningCollector.new sampleWorkspace "picoclaw" 60),
          (LearningCollector.tidyTwice.fs, .new sibling "picoclaw" 60)].flatMap fun t =>
            (LearningCollector.collect sampleFromStr t.1 t.2).2.1) :=
  collectors_write_each_series_once sampleFromStr _ _ (by decide) (by decide)

end Writes

end HarnessSphere
