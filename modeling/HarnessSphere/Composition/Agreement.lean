import Mathlib.Data.Finset.Image
import HarnessSphere.Composition.Keys
import HarnessSphere.Composition.Discovery

/-! # Discovery and the supervisor agree

Seen by names alone, the registry is a set and a command is an edit of it. The commands on their way,
those not sent yet included, always lead from what is registered to what the scan found, and none of
them finds its edit already made.
-/

namespace HarnessSphere

open Machine

def Keyed (t : Table String Workspace) : Prop :=
  ∀ name w, t.lookup name = some w → name = w.sourceName

theorem Keyed.of_perm {t u : Table String Workspace} (h : Keyed t)
    (hPerm : u.entries.Perm t.entries) : Keyed u := by
  intro name w hLookup
  rw [AList.perm_lookup hPerm] at hLookup
  exact h name w hLookup

theorem Keyed.ne_learningKey {t : Table String Workspace} (h : Keyed t) {name : String}
    (hName : name ∈ t) (other : String) : name ≠ learningKey other := by
  obtain ⟨w, hw⟩ := Option.isSome_iff_exists.mp (AList.lookup_isSome.mpr hName)
  rw [h name w hw]
  exact sourceName_ne_learningKey w other

theorem byName_concat (found : List Workspace) (w : Workspace) :
    byName (found ++ [w]) = (byName found).insert w.sourceName w := by
  simp [byName, List.foldl_append]

theorem of_lookup_byName {found : List Workspace} {name : String} {w : Workspace}
    (h : (byName found).lookup name = some w) : name = w.sourceName ∧ w ∈ found := by
  induction found using List.reverseRecOn with
  | nil => cases h
  | append_singleton found v ih =>
    rw [byName_concat] at h
    rcases eq_or_ne name v.sourceName with rfl | hne
    · rw [AList.lookup_insert] at h
      obtain rfl := Option.some.inj h
      exact ⟨rfl, List.mem_append_right _ (List.mem_singleton_self _)⟩
    · rw [AList.lookup_insert_ne hne] at h
      exact ⟨(ih h).1, List.mem_append_left _ (ih h).2⟩

theorem keyed_byName (found : List Workspace) : Keyed (byName found) :=
  fun _ _ h => (of_lookup_byName h).1

theorem mem_byName {found : List Workspace} {name : String} :
    name ∈ byName found ↔ name ∈ found.map Workspace.sourceName := by
  induction found using List.reverseRecOn with
  | nil => simp [byName]
  | append_singleton found v ih => simp [byName_concat, AList.mem_insert, ih, or_comm]

theorem keys_byName_perm {found : List Workspace} (h : (found.map Workspace.sourceName).Nodup) :
    (byName found).keys.Perm (found.map Workspace.sourceName) :=
  (List.perm_ext_iff_of_nodup (AList.keys_nodup _) h).mpr fun _ => mem_byName

def names (t : Table String Workspace) : Finset String :=
  t.keys.toFinset ∪ t.keys.toFinset.image learningKey

theorem mem_names {t : Table String Workspace} {a : String} :
    a ∈ names t ↔ a ∈ t ∨ ∃ name ∈ t, learningKey name = a := by
  simp [names, ← AList.mem_keys]

theorem names_of_perm {t u : Table String Workspace} (h : u.entries.Perm t.entries) :
    names u = names t := by
  ext a
  simp only [mem_names, AList.mem_of_perm h]

def watched (found : List Workspace) : Finset String :=
  (found.flatMap fun w => [w.sourceName, learningKey w.sourceName]).toFinset

theorem names_byName (found : List Workspace) : names (byName found) = watched found := by
  ext a
  simp only [mem_names, mem_byName, watched, List.mem_toFinset, List.mem_flatMap, List.mem_map,
    List.mem_cons, List.not_mem_nil, or_false]
  constructor
  · rintro (⟨w, hw, rfl⟩ | ⟨_, ⟨w, hw, rfl⟩, rfl⟩)
    · exact ⟨w, hw, .inl rfl⟩
    · exact ⟨w, hw, .inr rfl⟩
  · rintro ⟨w, hw, rfl | rfl⟩
    · exact .inl ⟨w, hw, rfl⟩
    · exact .inr ⟨_, ⟨w, hw, rfl⟩, rfl⟩

/-- The names of the second table that the first one lacks, in the order of the second. -/
def fresh (known current : Table String Workspace) : List String :=
  current.keys.flatMap fun name => if name ∈ known then [] else [name, learningKey name]

theorem mem_fresh {known current : Table String Workspace} (hKnown : Keyed known)
    (hCurrent : Keyed current) (a : String) :
    a ∈ fresh known current ↔ a ∈ names current ∧ a ∉ names known := by
  have hFresh : a ∈ fresh known current ↔
      ∃ name ∈ current, name ∉ known ∧ (a = name ∨ a = learningKey name) := by
    simp only [fresh, List.mem_flatMap, AList.mem_keys]
    refine exists_congr fun name => and_congr_right fun _ => ?_
    split <;> simp_all
  rw [hFresh, mem_names, mem_names]
  constructor
  · rintro ⟨name, hName, hNew, rfl | rfl⟩
    · refine ⟨.inl hName, ?_⟩
      rintro (hOld | ⟨other, -, hOther⟩)
      · exact hNew hOld
      · exact hCurrent.ne_learningKey hName other hOther.symm
    · refine ⟨.inr ⟨name, hName, rfl⟩, ?_⟩
      rintro (hOld | ⟨other, hOther, hEq⟩)
      · exact hKnown.ne_learningKey hOld name rfl
      · exact hNew (learningKey_injective hEq ▸ hOther)
  · rintro ⟨hName | ⟨name, hName, rfl⟩, hNew⟩
    · exact ⟨a, hName, fun hOld => hNew (.inl hOld), .inl rfl⟩
    · exact ⟨name, hName, fun hOld => hNew (.inr ⟨name, hOld, rfl⟩), .inr rfl⟩

theorem fresh_nodup {known current : Table String Workspace} (hCurrent : Keyed current) :
    (fresh known current).Nodup := by
  refine List.nodup_flatMap.mpr ⟨?_, ?_⟩
  · intro name hName
    split
    · exact List.nodup_nil
    · simpa using hCurrent.ne_learningKey (AList.mem_keys.mpr hName) name
  · refine current.keys_nodup.imp_of_mem ?_
    intro a b ha hb hne
    have hNames : b ≠ a := hne.symm
    have hKeys : learningKey b ≠ learningKey a := fun h => hNames (learningKey_injective h)
    have hCross : learningKey b ≠ a := (hCurrent.ne_learningKey (AList.mem_keys.mpr ha) b).symm
    have hCross' : b ≠ learningKey a := hCurrent.ne_learningKey (AList.mem_keys.mpr hb) a
    dsimp only [Function.onFun]
    split <;> split <;> simp_all

def SupervisorCmd.edit : SupervisorCmd → Edit String
  | .add desc => .add desc.name
  | .remove name => .remove name

theorem edit_additions (d : Discovery) {known current : Table String Workspace}
    (hCurrent : Keyed current) :
    (d.additions known current).map SupervisorCmd.edit = (fresh known current).map .add := by
  rw [Discovery.additions, fresh, List.map_flatMap, List.map_flatMap, AList.keys, List.keys,
    List.flatMap_map]
  refine List.flatMap_congr fun ⟨name, w⟩ hEntry => ?_
  have hName : name = w.sourceName := hCurrent name w (AList.mem_lookup_iff.mpr hEntry)
  dsimp only
  split
  · rfl
  · rw [hName]
    rfl

theorem edit_removals (known current : Table String Workspace) :
    (removals known current).map SupervisorCmd.edit = (fresh current known).map .remove := by
  rw [removals, fresh, List.map_flatMap, List.map_flatMap]
  refine List.flatMap_congr fun name _ => ?_
  split <;> rfl

theorem exec_commands (d : Discovery) {known current : Table String Workspace}
    (hKnown : Keyed known) (hCurrent : Keyed current) :
    exec Edit.step (names known)
      ((d.additions known current ++ removals known current).map SupervisorCmd.edit) =
      some (names current) := by
  rw [List.map_append, edit_additions d hCurrent, edit_removals]
  exact Edit.exec_reconcile (fresh_nodup hCurrent) (fresh_nodup hKnown)
    (mem_fresh hKnown hCurrent) (mem_fresh hCurrent hKnown)

theorem commands_eq_nil (d : Discovery) {known current : Table String Workspace}
    (hKnown : Keyed known) (hCurrent : Keyed current) (hNames : names current = names known) :
    d.additions known current ++ removals known current = [] := by
  have hNone (t u : Table String Workspace) (hFresh : ∀ a, a ∈ fresh t u ↔ a ∈ names u ∧ a ∉ names t)
      (hEq : names u = names t) : fresh t u = [] := by
    refine List.eq_nil_iff_forall_not_mem.mpr fun a ha => ?_
    obtain ⟨hIn, hOut⟩ := (hFresh a).mp ha
    exact hOut (hEq ▸ hIn)
  rw [← List.map_eq_nil_iff (f := SupervisorCmd.edit), List.map_append, edit_additions d hCurrent,
    edit_removals, hNone _ _ (mem_fresh hKnown hCurrent) hNames,
    hNone _ _ (mem_fresh hCurrent hKnown) hNames.symm]
  rfl

theorem notMem_bootNames {t : Table String Workspace} (h : Keyed t) {a : String} (ha : a ∈ names t) :
    a ∉ bootNames := by
  rcases mem_names.mp ha with hName | ⟨name, -, rfl⟩
  · obtain ⟨w, hw⟩ := Option.isSome_iff_exists.mp (AList.lookup_isSome.mpr hName)
    rw [h a w hw]
    exact sourceName_notMem_bootNames w
  · exact learningKey_notMem_bootNames name

theorem elem_of_mem_commands (d : Discovery) {known current : Table String Workspace}
    (hKnown : Keyed known) (hCurrent : Keyed current) {cmd : SupervisorCmd}
    (h : cmd ∈ d.additions known current ++ removals known current) :
    cmd.edit.elem ∉ bootNames := by
  have hEdit := List.mem_map_of_mem (f := SupervisorCmd.edit) h
  rw [List.map_append, edit_additions d hCurrent, edit_removals, List.mem_append] at hEdit
  rcases hEdit with hEdit | hEdit
  · obtain ⟨a, ha, hEq⟩ := List.mem_map.mp hEdit
    rw [← hEq]
    exact notMem_bootNames hCurrent ((mem_fresh hKnown hCurrent a).mp ha).1
  · obtain ⟨a, ha, hEq⟩ := List.mem_map.mp hEdit
    rw [← hEq]
    exact notMem_bootNames hKnown ((mem_fresh hCurrent hKnown a).mp ha).1

/-- The names in the registry besides those of the boot sources. -/
def Supervisor.registered (s : Supervisor) : Finset String :=
  (s.registry.keys.filter fun name => name ∉ bootNames).toFinset

theorem Supervisor.mem_registered {s : Supervisor} {name : String} :
    name ∈ s.registered ↔ name ∈ s.registry ∧ name ∉ bootNames := by
  simp [registered, ← AList.mem_keys]

/-- A command does to the registered names what its edit does. -/
theorem Supervisor.registered_command {s s' : Supervisor} {cmd : SupervisorCmd} {t : Finset String}
    (hStep : s.step (.command cmd) = some s') (hName : cmd.edit.elem ∉ bootNames)
    (hEdit : Edit.step s.registered cmd.edit = some t) : s'.registered = t := by
  cases act_of_step hStep with
  | addDuplicate desc hIdle hOld =>
    exact absurd (mem_registered.mpr ⟨hOld, hName⟩) (Edit.step_add_iff.mp hEdit).1
  | added desc hIdle hNew =>
    obtain ⟨-, rfl⟩ := Edit.step_add_iff.mp hEdit
    ext a
    rw [Finset.mem_insert, mem_registered, mem_registered, AList.mem_insert]
    constructor
    · rintro ⟨rfl | ha, hBoot⟩
      · exact .inl rfl
      · exact .inr ⟨ha, hBoot⟩
    · rintro (rfl | ⟨ha, hBoot⟩)
      · exact ⟨.inl rfl, hName⟩
      · exact ⟨.inr ha, hBoot⟩
  | removeMissing name hIdle hNone =>
    obtain ⟨hThere, -⟩ := Edit.step_remove_iff.mp hEdit
    exact absurd (mem_registered.mp hThere).1 (AList.lookup_eq_none.mp hNone)
  | removed name i hIdle hSome =>
    obtain ⟨-, rfl⟩ := Edit.step_remove_iff.mp hEdit
    ext a
    rw [Finset.mem_erase, mem_registered, mem_registered, AList.mem_erase, and_assoc]

theorem Supervisor.registered_other {s s' : Supervisor} {e : SupervisorEvent}
    (hStep : s.step e = some s') (hOther : ∀ cmd, e ≠ .command cmd)
    (hBoot : ∀ desc ∈ s.boot, desc.name ∈ bootNames) :
    s'.registered = s.registered ∧ ∀ desc ∈ s'.boot, desc.name ∈ bootNames := by
  cases act_of_step hStep with
  | bootDuplicate desc boot hSome hOld =>
    rw [hSome] at hBoot
    exact ⟨rfl, fun desc' h => hBoot desc' (List.mem_cons_of_mem _ h)⟩
  | bootSpawned desc boot hSome hNew =>
    rw [hSome] at hBoot
    refine ⟨?_, fun desc' h => hBoot desc' (List.mem_cons_of_mem _ h)⟩
    ext a
    rw [mem_registered, mem_registered, AList.mem_insert]
    constructor
    · rintro ⟨rfl | ha, hNot⟩
      · exact absurd (hBoot desc List.mem_cons_self) hNot
      · exact ⟨ha, hNot⟩
    · rintro ⟨ha, hNot⟩
      exact ⟨.inr ha, hNot⟩
  | addDuplicate desc | added desc => exact absurd rfl (hOther _)
  | removeMissing name | removed name => exact absurd rfl (hOther _)
  | _ => exact ⟨rfl, hBoot⟩

namespace ControlPlane

structure Agrees (s : ControlPlane) : Prop where
  known : Keyed s.known
  target : Keyed s.target
  boot : ∀ desc ∈ s.supervisor.boot, desc.name ∈ bootNames
  commands : ∀ cmd ∈ s.queue ++ s.unsent, cmd.edit.elem ∉ bootNames
  replay : exec Edit.step s.supervisor.registered
    ((s.queue ++ s.unsent).map SupervisorCmd.edit) = some (names s.target)

theorem agrees_new {criticalThreshold : UInt32} {boot : List SourceDescriptor}
    (hBoot : ∀ desc ∈ boot, desc.name ∈ bootNames) : (new criticalThreshold boot).Agrees where
  known name w h := by cases h
  target name w h := by cases h
  boot := hBoot
  commands cmd h := by cases h
  replay := rfl

theorem Agrees.head {s : ControlPlane} (h : s.Agrees) {cmd : SupervisorCmd}
    {queue : List SupervisorCmd} (hQueue : s.queue = cmd :: queue) :
    ∃ t, Edit.step s.supervisor.registered cmd.edit = some t ∧
      exec Edit.step t ((queue ++ s.unsent).map SupervisorCmd.edit) = some (names s.target) := by
  have hReplay := h.replay
  rw [hQueue, List.cons_append, List.map_cons, exec_cons] at hReplay
  exact Option.bind_eq_some_iff.mp hReplay

theorem agrees_of_act {d : Discovery} {s s' : ControlPlane} {e : ControlEvent} (hAct : Act d s e s')
    (h : s.Agrees) : s'.Agrees := by
  have hTarget := h.target
  have hCommands := h.commands
  have hReplay := h.replay
  cases hAct with
  | scanned fs known current hScan hKnown hCurrent =>
    have hKeyed : Keyed known := h.known.of_perm hKnown
    have hKeyed' : Keyed current := (keyed_byName _).of_perm hCurrent
    rw [unsent, hScan, List.append_nil] at hReplay hCommands
    rw [target, hScan, ← names_of_perm hKnown] at hReplay
    refine ⟨hKeyed, hKeyed', h.boot, ?_, ?_⟩
    · intro cmd hCmd
      rcases List.mem_append.mp hCmd with hOld | hNew
      · exact hCommands cmd hOld
      · exact elem_of_mem_commands d hKeyed hKeyed' hNew
    · rw [List.map_append, exec_append, hReplay]
      exact exec_commands d hKeyed hKeyed'
  | sent current cmd rest hScan =>
    rw [target, hScan] at hTarget hReplay
    rw [unsent, hScan] at hReplay hCommands
    refine ⟨h.known, hTarget, h.boot, ?_, ?_⟩
    · rwa [List.append_cons] at hCommands
    · rwa [List.append_cons] at hReplay
  | published current hScan =>
    rw [target, hScan] at hTarget hReplay
    rw [unsent, hScan] at hReplay hCommands
    exact ⟨hTarget, hTarget, h.boot, hCommands, hReplay⟩
  | received cmd queue supervisor hQueue hStep =>
    obtain ⟨t, hEdit, hRest⟩ := h.head hQueue
    have hCmd : cmd.edit.elem ∉ bootNames := hCommands cmd (by simp [hQueue])
    refine ⟨h.known, hTarget, ?_, ?_, ?_⟩
    · have hEmpty : supervisor.boot = s.supervisor.boot := by
        cases Supervisor.act_of_step hStep <;> rfl
      exact hEmpty ▸ h.boot
    · intro cmd' hCmd'
      apply hCommands cmd'
      rw [hQueue]
      exact List.mem_cons_of_mem _ hCmd'
    · rw [Supervisor.registered_command hStep hCmd hEdit]
      exact hRest
  | supervised e supervisor hOther hStep =>
    obtain ⟨hSame, hBoot⟩ := Supervisor.registered_other hStep hOther h.boot
    exact ⟨h.known, hTarget, hBoot, hCommands, hSame ▸ hReplay⟩

end ControlPlane

def ControlEvent.tree : ControlEvent → Option Fs
  | .scanned fs _ _ => some fs
  | _ => none

def lastScan (events : List ControlEvent) : Option Fs :=
  (events.filterMap ControlEvent.tree).getLast?

theorem lastScan_concat (events : List ControlEvent) (e : ControlEvent) :
    lastScan (events ++ [e]) = e.tree.or (lastScan events) := by
  rw [lastScan, List.filterMap_append, List.getLast?_append]
  cases h : e.tree with
  | none => simp [h, lastScan]
  | some fs => simp [h]

theorem lastScan_other {e : ControlEvent} (h : e.tree = none) (events : List ControlEvent) :
    lastScan (events ++ [e]) = lastScan events := by
  rw [lastScan_concat, h, Option.none_or]

def SlashFreeScan (_ : ControlPlane) (e : ControlEvent) : Prop := ∀ fs ∈ e.tree, fs.SlashFree

namespace ControlPlane

/-- What is sent and published comes from the last scan. -/
structure Follows (d : Discovery) (events : List ControlEvent) (s : ControlPlane) : Prop where
  agrees : s.Agrees
  slashFree : ∀ fs ∈ lastScan events, fs.SlashFree
  target : ∀ fs ∈ lastScan events, s.target.entries.Perm (byName (discover fs d.dataRoot)).entries
  published : s.scan = .waiting → s.workspaces = s.target.keys.length

theorem follows_of_run {d : Discovery} {criticalThreshold : UInt32} {boot : List SourceDescriptor}
    (hBoot : ∀ desc ∈ boot, desc.name ∈ bootNames) {events : List ControlEvent} {s : ControlPlane}
    (hRun : Run (step d) SlashFreeScan (new criticalThreshold boot) events s) :
    Follows d events s := by
  apply hRun.history (I := Follows d)
  · exact ⟨agrees_new hBoot, by simp [lastScan], by simp [lastScan], fun _ => rfl⟩
  · intro events a e b h hSlash hStep
    have hAct := act_of_step hStep
    have hAgrees := agrees_of_act hAct h.agrees
    have hTarget := h.target
    have hPublished := h.published
    cases hAct with
    | scanned fs known current hScan hKnown hCurrent =>
      refine ⟨hAgrees, ?_, ?_, fun hWaiting => by cases hWaiting⟩
      · intro fs' hLast
        rw [lastScan_concat] at hLast
        obtain rfl := Option.some.inj hLast
        exact hSlash fs rfl
      · intro fs' hLast
        rw [lastScan_concat] at hLast
        obtain rfl := Option.some.inj hLast
        exact hCurrent
    | sent current cmd rest hScan =>
      rw [target, hScan] at hTarget
      refine ⟨hAgrees, ?_, ?_, fun hWaiting => by cases hWaiting⟩ <;> rw [lastScan_other rfl]
      · exact h.slashFree
      · exact hTarget
    | published current hScan =>
      rw [target, hScan] at hTarget
      refine ⟨hAgrees, ?_, ?_, fun _ => rfl⟩ <;> rw [lastScan_other rfl]
      · exact h.slashFree
      · exact hTarget
    | received cmd queue supervisor hQueue hStep' =>
      refine ⟨hAgrees, ?_, ?_, hPublished⟩ <;> rw [lastScan_other rfl]
      · exact h.slashFree
      · exact hTarget
    | supervised e supervisor hOther hStep' =>
      refine ⟨hAgrees, ?_, ?_, hPublished⟩ <;> rw [lastScan_other rfl]
      · exact h.slashFree
      · exact hTarget

/-- Whatever the scans find and however the parties take turns: no command finds its edit made
already; after a scan the commands in flight lead to the names of the workspaces it found, the counter
shows their number, and a scan that finds the same has nothing to send. -/
theorem discovery_and_supervisor_agree (d : Discovery) (cfg : Config) (boot : List SourceDescriptor)
    (hBoot : cfg.sources = .ok boot) (events : List ControlEvent) (s : ControlPlane)
    (hRun : Run (step d) SlashFreeScan (new cfg.criticalThreshold boot) events s) :
    (∀ desc queue, s.queue = .add desc :: queue → desc.name ∉ s.supervisor.registry) ∧
    (∀ name queue, s.queue = .remove name :: queue → name ∈ s.supervisor.registry) ∧
    ∀ fs, lastScan events = some fs → s.scan = .waiting →
      exec Edit.step s.supervisor.registered (s.queue.map SupervisorCmd.edit) =
          some (watched (discover fs d.dataRoot)) ∧
        s.workspaces = (discover fs d.dataRoot).length ∧
        ∀ fs' known current s', step d s (.scanned fs' known current) = some s' →
          discover fs' d.dataRoot = discover fs d.dataRoot → s'.unsent = [] := by
  have h := follows_of_run (fun _ => name_of_mem_sources hBoot) hRun
  refine ⟨?_, ?_, ?_⟩
  · intro desc queue hQueue hOld
    obtain ⟨t, hEdit, -⟩ := h.agrees.head hQueue
    have hName : desc.name ∉ bootNames := h.agrees.commands (.add desc) (by simp [hQueue])
    exact (Edit.step_add_iff.mp hEdit).1 (Supervisor.mem_registered.mpr ⟨hOld, hName⟩)
  · intro name queue hQueue
    obtain ⟨t, hEdit, -⟩ := h.agrees.head hQueue
    exact (Supervisor.mem_registered.mp (Edit.step_remove_iff.mp hEdit).1).1
  · intro fs hLast hWaiting
    have hPerm := h.target fs hLast
    have hNodup := sourceNames_nodup (h.slashFree fs hLast) d.dataRoot
    refine ⟨?_, ?_, ?_⟩
    · have hReplay := h.agrees.replay
      rw [unsent, hWaiting, List.append_nil] at hReplay
      rw [hReplay, names_of_perm hPerm, names_byName]
    · have hKeys : s.target.keys.Perm (byName (discover fs d.dataRoot)).keys := hPerm.map Sigma.fst
      rw [h.published hWaiting, hKeys.length_eq, (keys_byName_perm hNodup).length_eq,
        List.length_map]
    · intro fs' known current s' hStep hSame
      cases act_of_step hStep with
      | scanned _ _ _ hScan hKnown hCurrent =>
        rw [target, hScan] at hPerm
        rw [hSame] at hCurrent
        refine commands_eq_nil d (h.agrees.known.of_perm hKnown) ((keyed_byName _).of_perm hCurrent) ?_
        rw [names_of_perm hCurrent, names_of_perm hKnown, names_of_perm hPerm]

end ControlPlane

section Sample

def sampleConfig : Config where
  hostIntervalSecs := 5
  selfIntervalSecs := 10
  criticalThreshold := 3
  watchProcesses := []
  probeTargets := []
  dataRoot := "/data"
  containerCgroup := ""

def sampleDiscovery : Discovery := ⟨["", "data"].map OsString.ofStr, 60, 300, "picoclaw"⟩

def sampleBoot : List SourceDescriptor :=
  [⟨"host", .host, .critical, 5⟩, ⟨"self", .watcher, .critical, 10⟩,
    ⟨"discovery", .watcher, .optional, 10⟩]

def oneWorkspaceFound : List ControlEvent :=
  [.supervised .spawnBoot, .supervised .spawnBoot, .supervised .spawnBoot,
    .scanned (sampleDisk []).fs ∅ (byName [sampleWorkspace]), .sent, .sent, .received, .published]

theorem one_workspace_is_watched : ∃ s : ControlPlane,
    exec (ControlPlane.step sampleDiscovery) (.new sampleConfig.criticalThreshold sampleBoot)
      oneWorkspaceFound = some s ∧
    exec Edit.step s.supervisor.registered (s.queue.map SupervisorCmd.edit) =
      some (watched (discover (sampleDisk []).fs sampleDiscovery.dataRoot)) ∧ s.workspaces = 1 := by
  have hSome : ((exec (ControlPlane.step sampleDiscovery)
      (.new sampleConfig.criticalThreshold sampleBoot) oneWorkspaceFound).map fun s =>
        (s.scan matches .waiting)) = some true := by decide
  obtain ⟨s, hExec, hScan⟩ := Option.map_eq_some_iff.mp hSome
  have hWaiting : s.scan = .waiting := by
    split at hScan
    · assumption
    · cases hScan
  have hRun : Run (ControlPlane.step sampleDiscovery) SlashFreeScan
      (.new sampleConfig.criticalThreshold sampleBoot) oneWorkspaceFound s := by
    apply (run_of_exec hExec).of_labels
    intro e he a fs hfs
    have hTree : fs ∈ oneWorkspaceFound.filterMap ControlEvent.tree :=
      List.mem_filterMap.mpr ⟨e, he, hfs⟩
    obtain rfl := List.mem_singleton.mp hTree
    exact Disk.slashFree (by decide)
  obtain ⟨hReplay, hCount, -⟩ := (ControlPlane.discovery_and_supervisor_agree sampleDiscovery
    sampleConfig sampleBoot rfl oneWorkspaceFound s hRun).2.2 (sampleDisk []).fs rfl hWaiting
  exact ⟨s, hExec, hReplay, hCount.trans (by decide)⟩

end Sample

end HarnessSphere
