import HarnessSphere.Composition.CatchUp
import HarnessSphere.Composition.Program
import HarnessSphere.Runtime.Ending

/-! # What is watched

The registry holds names; behind each of them is a task, and behind the task a source. Where discovery
and the supervisor are done with a scan, the tasks of the registry are those of the workspaces found,
each with the sources that were made for it, and each of them still in its loop unless it panicked.
-/

namespace HarnessSphere

open Machine

/-- A source that discovery has added goes on until it is asked to stop, or panics. -/
theorem Task.goes_on_of_act {now : Nat} {room : Bool} {t t' : Task} {e : TaskEvent}
    {fatal : Option FatalSignal} (hAct : Task.Act now room t e t' fatal) (hLive : t.live)
    (hOrigin : t.origin = .discovered) (hOptional : t.desc.criticality = .optional)
    (hProbe : ∀ msg, e ≠ .probed (.fatal msg)) :
    (t'.live ∨ t'.point = .ended .panicked) ∨ t.stop ≠ .pending := by
  have hPanic : t.panic.point = .ended .panicked := by
    obtain ⟨hEnded, -⟩ | ⟨-, hCritical⟩ := t.point_panic
    · exact hEnded
    · rw [hOptional] at hCritical
      cases hCritical
  cases hAct with
  | probed r hPoint =>
    obtain hTo | hTo | ⟨-, hBoot, -⟩ | ⟨msg, rfl, -⟩ := t.point_probed now r
    · exact .inl (.inl (by simp [live, hTo]))
    · exact .inl (.inr (hTo.trans hPanic))
    · rw [hOrigin] at hBoot
      cases hBoot
    · exact absurd rfl (hProbe msg)
  | probePanicked hPoint | retirePanicked _ _ hPoint => exact .inl (.inr hPanic)
  | ticked hPoint hDue => exact .inl (.inl (t.ticked_spec now).2.2)
  | stopSeen terminal hPoint hStop => exact .inr hStop
  | woke wake hPoint hDue => exact .inl (.inl rfl)
  | emitted signal hPoint => exact .inl (.inl hLive)
  | collected outcome hPoint => exact .inl (.inl (t.collected_spec outcome).2.2)
  | reported f resume hPoint hRoom =>
    cases resume with
    | loop => exact .inl (.inl rfl)
    | fatalProbe | panicked => simp [live, hPoint] at hLive
  | terminal _ _ _ hPoint | retired _ hPoint => simp [live, hPoint] at hLive

namespace Process

variable {st : Start} {p p' : Process} {e : ProcessEvent} {name : String} {i : Nat} {t t' : Task}

/-- A handle in the registry was there before and is not being removed, or leads to a new task. -/
theorem old_handle_of_act (hAct : Act p e p') (hName : p'.supervisor.registry.lookup name = some i) :
    p.supervisor.registry.lookup name = some i ∧ e ≠ .command (.remove name) ∨
      i = p.supervisor.tasks.length := by
  have hInsert {desc : SourceDescriptor} (hEvent : e ≠ .command (.remove name))
      (hName : (p.supervisor.registry.insert desc.name p.supervisor.tasks.length).lookup name = some i) :
      p.supervisor.registry.lookup name = some i ∧ e ≠ .command (.remove name) ∨
        i = p.supervisor.tasks.length := by
    obtain rfl | hOther := eq_or_ne name desc.name
    · rw [AList.lookup_insert] at hName
      exact .inr (Option.some.inj hName).symm
    · rw [AList.lookup_insert_ne hOther] at hName
      exact .inl ⟨hName, hEvent⟩
  have hErase {gone : String} (hName : (p.supervisor.registry.erase gone).lookup name = some i) :
      name ≠ gone ∧ p.supervisor.registry.lookup name = some i := by
    obtain rfl | hOther := eq_or_ne name gone
    · rw [AList.lookup_erase] at hName
      cases hName
    · rw [AList.lookup_erase_ne hOther] at hName
      exact ⟨hOther, hName⟩
  cases hAct with
  | spawnBoot s hRunning hAct =>
    cases hAct with
    | bootDuplicate => exact .inl ⟨hName, nofun⟩
    | bootSpawned => exact hInsert nofun hName
  | command cmd s hRunning hAct =>
    cases hAct with
    | addDuplicate => exact .inl ⟨hName, nofun⟩
    | added => exact hInsert nofun hName
    | removeMissing gone hIdle hMissing =>
      refine .inl ⟨hName, ?_⟩
      rintro ⟨⟩
      rw [hMissing] at hName
      cases hName
    | removed gone j hIdle hGone =>
      obtain ⟨hOther, hOld⟩ := hErase hName
      refine .inl ⟨hOld, ?_⟩
      rintro ⟨⟩
      exact hOther rfl
  | joined s hRunning hAct =>
    cases hAct
    exact .inl ⟨hName, nofun⟩
  | timedOut r hRunning hRemoval hUnfinished =>
    rw [registry_abort] at hName
    exact .inl ⟨hName, nofun⟩
  | aborts gone result j hStage hGone =>
    rw [registry_abort] at hName
    exact .inl ⟨(hErase hName).2, nofun⟩
  | _ => exact .inl ⟨hName, nofun⟩

/-- As long as the supervisor runs, it has asked nothing of the tasks in its registry. -/
structure Unasked (p : Process) : Prop where
  shutDown : p.stage = .running → p.shutDown = []
  stop : p.stage = .running → ∀ name i t, p.supervisor.registry.lookup name = some i →
    p.supervisor.tasks[i]? = some t → t.stop ≠ .sent

theorem unasked_new (criticalThreshold : UInt32) (boot : List SourceDescriptor) :
    Unasked (new criticalThreshold boot) where
  shutDown _ := rfl
  stop _ name i t hName := by cases hName

theorem unasked_of_act (hAct : Act p e p') (hHandled : Handled p) (h : Unasked p) : Unasked p' where
  shutDown hRunning' := by
    rw [← h.shutDown (running_of_act hAct hRunning')]
    cases hAct with
    | timedOut r hRunning hRemoval hUnfinished => rw [shutDown_abort]
    | aborts name result i hStage hName =>
      rw [stage_abort] at hRunning'
      cases hRunning'
    | _ => rfl
  stop := by
    intro hRunning' name i t' hName' hTask'
    have hRunning := running_of_act hAct hRunning'
    obtain ⟨t, hTask, hEffect⟩ | ⟨-, desc, origin, rfl, -⟩ := effect_of_act hAct hTask'
    · obtain ⟨hName, hKept⟩ | rfl := old_handle_of_act hAct hName'
      · have hOld := h.stop hRunning name i t hName hTask
        cases hEffect with
        | same | aborted => exact hOld
        | removed gone hEvent hGone =>
          -- Two names never share a task, so that this is the name that leaves the registry.
          obtain ⟨u, hu, rfl⟩ := hHandled name i hName
          obtain ⟨v, hv, rfl⟩ := hHandled gone i hGone
          obtain rfl := Option.some.inj (hu.symm.trans hv)
          exact absurd hEvent hKept
        | dropped result hStage => exact nofun
        | moved e' _ fatal hEvent hTaskAct hSent =>
          rw [(Task.spec_of_act hTaskAct).1.stop]
          exact hOld
      · have hLt := (List.getElem?_eq_some_iff.mp hTask).1
        exact absurd hLt (Nat.lt_irrefl _)
    · exact nofun

theorem Unasked.not_excused (h : Unasked p) (hRunning : p.stage = .running)
    (hName : p.supervisor.registry.lookup name = some i) : ¬ Excused p i := by
  rintro (⟨t, hTask, hStop⟩ | hShutDown)
  · exact h.stop hRunning name i t hName hTask hStop
  · rw [h.shutDown hRunning] at hShutDown
    cases hShutDown

variable {pid : Except String UInt32} {otlp : Option (Settings → Except String Unit)} {cfg : Settings}

theorem Behind.optional {desc : SourceDescriptor} {s : SignalSource}
    (h : Behind st (desc, .discovered) s) : desc.criticality = .optional := by
  obtain ⟨rfl, ⟨hBoot, -⟩ | ⟨-, d, -, hs⟩⟩ := h
  · cases hBoot
  · exact (of_discovered hs).1

/-- Why a source of discovery is not in its loop: it was asked to stop, or it panicked. -/
def Going (p : Process) (i : Nat) (t : Task) : Prop :=
  t.origin = .discovered → Excused p i ∨ t.live ∨ t.point = .ended .panicked

theorem going_of_act (hStart : Start.start pid otlp cfg = .ok st) (hAct : Act p e p')
    (hDrives : drives st p e) (hBooted : Booted st p) (hAccounted : Accounted p)
    (h : ∀ i t, p.supervisor.tasks[i]? = some t → Going p i t) :
    ∀ i t, p'.supervisor.tasks[i]? = some t → Going p' i t := by
  apply tasks_of_act hAct h
  · intro i t t' hTask hTask' hEffect hOld hOrigin'
    have hOrigin : t.origin = .discovered := hEffect.origin.symm.trans hOrigin'
    obtain hExcused | hGoing := hOld hOrigin
    · exact .inl (hAccounted.excused hAct hExcused)
    cases hEffect with
    | same => exact .inr hGoing
    | removed name hEvent hName => exact .inl (.inl ⟨_, hTask', rfl⟩)
    | dropped result hStage => exact .inr hGoing
    | aborted hUnfinished hWhy => exact .inl (hAccounted.of_aborted hAct hWhy)
    | moved e' _ fatal hEvent hTaskAct hSent =>
      obtain hLive | hPanicked := hGoing
      · obtain ⟨s, hBehind⟩ := hBooted.behind _ (List.mem_map_of_mem (List.mem_of_getElem? hTask))
        rw [source, hOrigin] at hBehind
        have hProbe (msg : String) : e' ≠ .probed (.fatal msg) := by
          rintro rfl
          subst hEvent
          obtain ⟨s', world, hBehind', hFatal⟩ := hDrives t hTask
          have hCritical : t.desc.criticality = .critical := hBehind'.fatal hStart hFatal.symm
          rw [hBehind.optional] at hCritical
          cases hCritical
        obtain hGoes | hStop := Task.goes_on_of_act hTaskAct hLive hOrigin hBehind.optional hProbe
        · exact .inr hGoes
        · exact .inl (hAccounted.excused hAct ((hAccounted.tasks i t hTask).stop hStop))
      · have hUnfinished := Task.unfinished_of_act hTaskAct
        simp [Task.finished, hPanicked] at hUnfinished
  · exact fun desc origin _ _ => .inr (.inl rfl)

/-- What holds of every process that `main` runs, as far as the tasks of discovery go. -/
structure Attended (st : Start) (p : Process) : Prop where
  booted : Booted st p
  accounted : Accounted p
  unasked : Unasked p
  kept : Kept p
  going : ∀ i t, p.supervisor.tasks[i]? = some t → Going p i t

theorem attended_of_run (hStart : Start.start pid otlp cfg = .ok st) {events : List ProcessEvent}
    (hRun : Run step (drives st) (ofStart st) events p) : Attended st p := by
  refine hRun.invariant
    ⟨booted_new st, accounted_new _ _, unasked_new _ _, kept_new _ _, fun i t hTask => ?_⟩ ?_
  · simp [ofStart, new, Supervisor.new] at hTask
  · intro p e p' h hDrives hStep
    have hAct := act_of_step hStep
    exact ⟨booted_of_act hStart hAct hDrives h.booted,
      accounted_of_act hAct h.booted.handled h.accounted,
      unasked_of_act hAct h.booted.handled h.unasked, h.kept.act hAct,
      going_of_act hStart hAct hDrives h.booted h.accounted h.going⟩

/-- The tasks whose handles the supervisor has. -/
def held (p : Process) : List Task :=
  p.supervisor.registry.entries.filterMap fun entry => p.supervisor.tasks[entry.2]?

theorem mem_held : t ∈ p.held ↔
    ∃ name i, p.supervisor.registry.lookup name = some i ∧ p.supervisor.tasks[i]? = some t := by
  rw [held, List.mem_filterMap]
  constructor
  · rintro ⟨⟨name, i⟩, hEntry, hTask⟩
    exact ⟨name, i, AList.mem_lookup_iff.mpr hEntry, hTask⟩
  · rintro ⟨name, i, hName, hTask⟩
    exact ⟨⟨name, i⟩, AList.mem_lookup_iff.mp hName, hTask⟩

/-- The registry files each task under the name of its source. -/
theorem Handled.names_held (h : Handled p) :
    p.held.map (fun t => t.desc.name) = p.supervisor.registry.keys := by
  rw [held, List.map_filterMap, AList.keys, List.keys, ← List.filterMap_eq_map]
  refine List.filterMap_congr fun ⟨name, i⟩ hEntry => ?_
  obtain ⟨t, hTask, hName⟩ := h name i (AList.mem_lookup_iff.mpr hEntry)
  simp [hTask, hName]

theorem Behind.name_of_boot (hStart : Start.start pid otlp cfg = .ok st) {desc : SourceDescriptor}
    {s : SignalSource} (h : Behind st (desc, .boot) s) : desc.name ∈ bootNames := by
  obtain ⟨rfl, ⟨-, hs⟩ | ⟨hDiscovered, -⟩⟩ := h
  · exact Program.name_of_boot hStart _ (List.mem_map_of_mem hs)
  · cases hDiscovered

theorem Discovered.notMem_bootNames {d : Discovery} {s : SignalSource} (h : Discovered d s) :
    s.descriptor.name ∉ bootNames := by
  obtain ⟨w, rfl⟩ | ⟨w, rfl⟩ := h
  · exact sourceName_notMem_bootNames w
  · exact learningKey_notMem_bootNames w.sourceName

/-- Of the sources that discovery makes, one name has one descriptor. -/
theorem Discovered.descriptor_eq {d : Discovery} {s s' : SignalSource} (h : Discovered d s)
    (h' : Discovered d s') (hName : s.descriptor.name = s'.descriptor.name) :
    s.descriptor = s'.descriptor := by
  obtain ⟨v, rfl⟩ | ⟨v, rfl⟩ := h
  · obtain ⟨w, rfl⟩ | ⟨w, rfl⟩ := h'
    · exact congrArg (SourceDescriptor.mk · .harness .optional d.sessionInterval) hName
    · exact absurd hName (sourceName_ne_learningKey v w.sourceName)
  · obtain ⟨w, rfl⟩ | ⟨w, rfl⟩ := h'
    · exact absurd hName.symm (sourceName_ne_learningKey w v.sourceName)
    · exact congrArg (SourceDescriptor.mk · .harness .optional d.learningInterval) hName

end Process

namespace Discovery

variable (d : Discovery) {found : List Workspace}

/-- The sources for the workspaces that were found. -/
def sources (found : List Workspace) : List SignalSource :=
  found.flatMap fun w =>
    [.session (.new w d.harnessName d.sessionInterval),
      .learning (.new w d.harnessName d.learningInterval)]

theorem discovered_of_mem {s : SignalSource} (h : s ∈ d.sources found) : Process.Discovered d s := by
  obtain ⟨w, -, hs⟩ := List.mem_flatMap.mp h
  simp only [List.mem_cons, List.not_mem_nil, or_false] at hs
  obtain rfl | rfl := hs
  · exact .inl ⟨w, rfl⟩
  · exact .inr ⟨w, rfl⟩

theorem names_sources : (d.sources found).map (fun s => s.descriptor.name) =
    found.flatMap fun w => [w.sourceName, learningKey w.sourceName] := by
  rw [sources, List.map_flatMap]
  rfl

theorem mem_watched {name : String} :
    name ∈ watched found ↔ ∃ s ∈ d.sources found, s.descriptor.name = name := by
  rw [watched, List.mem_toFinset, ← names_sources d, List.mem_map]

theorem names_sources_nodup (h : (found.map Workspace.sourceName).Nodup) :
    ((d.sources found).map fun s => s.descriptor.name).Nodup := by
  have hFresh : (fresh ∅ (byName found)).Nodup := fresh_nodup (keyed_byName found)
  have hAll : fresh ∅ (byName found) =
      (byName found).keys.flatMap fun name => [name, learningKey name] := by
    simp [fresh]
  rw [hAll] at hFresh
  have hPerm := (keys_byName_perm h).flatMap_right fun name => [name, learningKey name]
  rw [List.flatMap_map] at hPerm
  rw [names_sources]
  exact hPerm.nodup_iff.mp hFresh

end Discovery

namespace Program

variable {st : Start} {p : Program} {pid : Except String UInt32}
  {otlp : Option (Settings → Except String Unit)} {cfg : Settings}

/-- Where the names in the registry are those of the workspaces found, the tasks are theirs. -/
theorem perm_of_registered (hStart : Start.start pid otlp cfg = .ok st) {d : Discovery}
    {interval : Duration} (hDiscovery : st.discovery = some (d, interval)) {q : Process}
    (hBooted : Process.Booted st q) {found : List Workspace}
    (hNodup : (found.map Workspace.sourceName).Nodup)
    (hRegistered : q.supervisor.registered = watched found) :
    ((q.held.filter fun t => t.origin = .discovered).map Task.desc).Perm
      ((d.sources found).map SignalSource.descriptor) := by
  have hBehind (t : Task) (hMem : t ∈ q.held) : ∃ s, Process.Behind st (t.desc, t.origin) s := by
    obtain ⟨name, i, -, hTask⟩ := Process.mem_held.mp hMem
    exact hBooted.behind _ (List.mem_map_of_mem (List.mem_of_getElem? hTask))
  have hSource (t : Task) (hMem : t ∈ q.held) (hOrigin : t.origin = .discovered) :
      ∃ s, Process.Discovered d s ∧ s.descriptor = t.desc := by
    obtain ⟨s, hDesc, ⟨hBoot, -⟩ | ⟨-, x, hx, hs⟩⟩ := hBehind t hMem
    · rw [hOrigin] at hBoot
      cases hBoot
    · obtain rfl := Option.some.inj (hDiscovery.symm.trans hx)
      exact ⟨s, hs, hDesc⟩
  refine (List.perm_ext_iff_of_nodup ?_ ?_).mpr fun desc => ?_
  · have hNames : (q.held.map fun t => t.desc.name).Nodup := by
      rw [hBooted.handled.names_held]
      exact q.supervisor.registry.keys_nodup
    have hSome := hNames.sublist (List.filter_sublist.map _ :
      ((q.held.filter fun t => t.origin = .discovered).map fun t => t.desc.name).Sublist _)
    apply List.Nodup.of_map SourceDescriptor.name
    rwa [List.map_map]
  · apply List.Nodup.of_map SourceDescriptor.name
    rw [List.map_map]
    exact d.names_sources_nodup hNodup
  · constructor
    · intro hDesc
      obtain ⟨t, ht, rfl⟩ := List.mem_map.mp hDesc
      obtain ⟨hMem, hOrigin⟩ := List.mem_filter.mp ht
      obtain ⟨s, hs, hSame⟩ := hSource t hMem (of_decide_eq_true hOrigin)
      have hName : t.desc.name ∈ q.supervisor.registered := by
        refine Supervisor.mem_registered.mpr ⟨?_, hSame ▸ hs.notMem_bootNames⟩
        rw [AList.mem_keys, ← hBooted.handled.names_held]
        exact List.mem_map_of_mem (f := fun t : Task => t.desc.name) hMem
      rw [hRegistered, d.mem_watched] at hName
      obtain ⟨s', hs', hName⟩ := hName
      rw [← hSame, hs.descriptor_eq (d.discovered_of_mem hs') (by rw [hSame, hName])]
      exact List.mem_map_of_mem hs'
    · intro hDesc
      obtain ⟨s, hs, rfl⟩ := List.mem_map.mp hDesc
      have hName : s.descriptor.name ∈ q.supervisor.registered := by
        rw [hRegistered, d.mem_watched]
        exact ⟨s, hs, rfl⟩
      obtain ⟨hThere, hOther⟩ := Supervisor.mem_registered.mp hName
      rw [AList.mem_keys, ← hBooted.handled.names_held] at hThere
      obtain ⟨t, hMem, hSame⟩ := List.mem_map.mp hThere
      have hOrigin : t.origin = .discovered := by
        cases hCase : t.origin with
        | discovered => rfl
        | boot =>
          obtain ⟨s', hBehind⟩ := hBehind t hMem
          rw [hCase] at hBehind
          exact absurd (hSame ▸ hBehind.name_of_boot hStart) hOther
      obtain ⟨s', hs', hDesc'⟩ := hSource t hMem hOrigin
      refine List.mem_map.mpr ⟨t, List.mem_filter.mpr ⟨hMem, decide_eq_true hOrigin⟩, ?_⟩
      rw [← hDesc']
      exact hs'.descriptor_eq (d.discovered_of_mem hs) (by rw [hDesc', hSame])

/-- Wherever the supervisor and discovery are at rest after a scan, the tasks that discovery has in the
registry are one session and one learning task for each workspace the scan found; each is probing or in
its loop, unless it panicked; no other task of discovery is left, unless an abort awaits the end of its poll; and
the gauge says how many workspaces there are. -/
theorem what_is_watched_is_what_was_found (pid : Except String UInt32)
    (otlp : Option (Settings → Except String Unit)) (cfg : Settings) (st : Start)
    (hStart : Start.start pid otlp cfg = .ok st) (capacity batchSize : Nat)
    (events : List ProgramEvent) (p : Program)
    (hRun : Run (step st) (probes st) (new st capacity batchSize) events p)
    (hRunning : p.watcher.process.stage = .running) (hSettled : p.plane.Settled) (d : Discovery)
    (interval : Duration) (hDiscovery : st.discovery = some (d, interval)) (fs : Fs)
    (hLast : lastScan (events.filterMap ProgramEvent.control) = some fs) (hSlash : fs.SlashFree) :
    ((p.watcher.process.held.filter fun t => t.origin = .discovered).map Task.desc).Perm
      ((d.sources (discover fs d.dataRoot)).map SignalSource.descriptor) ∧
    (∀ t ∈ p.watcher.process.held, t.origin = .discovered → t.live ∨ t.point = .ended .panicked) ∧
    (∀ i t, p.watcher.process.supervisor.tasks[i]? = some t → t.origin = .discovered →
      t.finished = false → p.watcher.process.supervisor.registry.lookup t.desc.name = some i ∨
        i ∈ p.watcher.process.condemned ∧ i ∈ p.watcher.process.busy) ∧
    p.workspaces = (discover fs d.dataRoot).length := by
  have h := Process.attended_of_run hStart (run_process hRun)
  have hAgrees := agrees_of_run hStart hRun hRunning
  have hFinds := finds_of_run hDiscovery hRun
  have hTarget := hFinds.target fs hLast
  have hNodup := sourceNames_nodup hSlash d.dataRoot
  refine ⟨perm_of_registered hStart hDiscovery h.booted hNodup ?_, fun t hMem hOrigin => ?_,
    fun i t hTask hOrigin hUnfinished => ?_, ?_⟩
  · have hReplay := hAgrees.replay
    rw [hSettled.queue, ControlPlane.unsent, hSettled.scan] at hReplay
    have hRegistered : p.plane.supervisor.registered = names p.plane.target := Option.some.inj hReplay
    rw [← names_byName, ← names_of_perm hTarget]
    exact hRegistered
  · obtain ⟨name, i, hName, hTask⟩ := Process.mem_held.mp hMem
    obtain hExcused | hGoing := h.going i t hTask hOrigin
    · exact absurd hExcused (h.unasked.not_excused hRunning hName)
    · exact hGoing
  · obtain hName | hCondemned | ⟨r, hRemoval, -⟩ := h.kept.tasks i t hTask hUnfinished
    · exact .inl hName
    · exact .inr ⟨hCondemned, h.kept.condemned hCondemned⟩
    · rw [show p.watcher.process.supervisor.removal = none from hSettled.removal] at hRemoval
      cases hRemoval
  · have hKeys : p.plane.target.keys.Perm (byName (discover fs d.dataRoot)).keys :=
      hTarget.map Sigma.fst
    rw [hFinds.published hSettled.scan, hKeys.length_eq, (keys_byName_perm hNodup).length_eq,
      List.length_map]

section Sample

/-- Both commands for a workspace arrive, the second one after the scan is over. -/
def bothArrive : List ProgramEvent :=
  halfSent ++ [.watcher (.process .spawnBoot), .received (.add sampleSession.descriptor),
    .discovery .sent, .discovery .published, .watcher (.process (.polled 3)),
    .received (.add sampleLearning.descriptor)]

theorem the_sample_workspace_is_watched : ∃ p : Program,
    exec (step rootedStart) (new rootedStart 4096 512) bothArrive = some p ∧
    ((p.watcher.process.held.filter fun t => t.origin = .discovered).map Task.desc).Perm
      ((sampleDiscovery.sources (discover (sampleDisk []).fs sampleDiscovery.dataRoot)).map
        SignalSource.descriptor) ∧ p.workspaces = 1 := by
  have hSome : ((exec (step rootedStart) (new rootedStart 4096 512) bothArrive).map fun p =>
      (p.watcher.process.stage, p.watcher.process.supervisor.boot,
        p.watcher.process.supervisor.removal, p.queue, p.scan matches .waiting)) =
      some (.running, [], none, [], true) := by decide
  obtain ⟨p, hExec, hRest⟩ := Option.map_eq_some_iff.mp hSome
  simp only [Prod.mk.injEq] at hRest
  obtain ⟨hRunning, hBoot, hRemoval, hQueue, hScan⟩ := hRest
  have hWaiting : p.scan = .waiting := by
    split at hScan
    · assumption
    · cases hScan
  have hRun : Run (step rootedStart) (probes rootedStart) (new rootedStart 4096 512) bothArrive p :=
    run_of_silent hExec (by simp [bothArrive, halfSent])
  obtain ⟨hPerm, -, -, hCount⟩ := what_is_watched_is_what_was_found (.ok 7) none rootedSettings
    rootedStart start_rooted 4096 512 bothArrive p hRun hRunning ⟨hBoot, hRemoval, hQueue, hWaiting⟩
    sampleDiscovery 30 rfl (sampleDisk []).fs rfl (Disk.slashFree (by decide))
  exact ⟨p, hExec, hPerm, hCount.trans (by decide)⟩

end Sample

end Program

end HarnessSphere
