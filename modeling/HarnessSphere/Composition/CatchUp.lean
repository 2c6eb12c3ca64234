import HarnessSphere.Library.Progress
import HarnessSphere.Composition.Agreement

/-! # What comes of a scan

Discovery waits for room in the channel, the supervisor for the task it retires, and that wait ends with
the task or with its deadline. Here no wait is for ever, and where both have caught up the registry holds
what the last scan found.
-/

namespace HarnessSphere

open Machine

/-- A turn of discovery or of the supervisor, as opposed to the steps of the tasks and of the clock. -/
def ControlEvent.turn : ControlEvent → Bool
  | .sent | .published | .received => true
  | .supervised .spawnBoot | .supervised .joined | .supervised .timedOut => true
  | _ => false

namespace ControlPlane

def Unscanned (_ : ControlPlane) (e : ControlEvent) : Prop := e.tree = none

/-- What is left to do: a command has to be sent, received and, where it is a removal, waited for. -/
def work (s : ControlPlane) : Nat :=
  s.supervisor.boot.length + 2 * s.queue.length +
    (match s.scan with
      | .waiting => 0
      | .sending _ rest => 3 * rest.length + 1) +
    if s.supervisor.removal.isSome then 1 else 0

/-- How long the supervisor can still wait for the task it retires. -/
def wait (s : ControlPlane) : Nat :=
  (s.supervisor.removal.map fun r => r.deadline - s.supervisor.now).getD 0

structure Settled (s : ControlPlane) : Prop where
  boot : s.supervisor.boot = []
  removal : s.supervisor.removal = none
  queue : s.queue = []
  scan : s.scan = .waiting

/-- The supervisor waits for a task that has not ended and may still take its time. -/
def OnHold (s : ControlPlane) : Prop := ∃ r, s.supervisor.removal = some r ∧
  s.supervisor.now < r.deadline ∧ r.deadline ≤ s.supervisor.now + retireTimeout ∧
  s.supervisor.finished r.task = false

variable {d : Discovery} {s s' : ControlPlane} {e : ControlEvent}

/-- Each turn takes from the work, and adds to the wait no more than the timeout of a removal. -/
theorem work_of_act (hAct : Act d s e s') (hUnscanned : e.tree = none) :
    s'.work + (if e.turn then 1 else 0) ≤ s.work ∧ s'.wait ≤ s.wait + retireTimeout := by
  cases hAct with
  | scanned fs known current hScan hKnown hCurrent => cases hUnscanned
  | sent current cmd rest hScan =>
    simp only [work, wait, hScan, ControlEvent.turn, List.length_append, List.length_cons,
      List.length_nil, if_true]
    omega
  | published current hScan =>
    simp only [work, wait, hScan, ControlEvent.turn, List.length_nil, if_true]
    omega
  | received cmd queue supervisor hQueue hStep =>
    cases Supervisor.act_of_step hStep with
    | addDuplicate desc hIdle hOld | added desc hIdle hNew | removeMissing name hIdle hMissing =>
      simp only [work, wait, hQueue, ControlEvent.turn, List.length_cons, if_true]
      omega
    | removed name i hIdle hName =>
      simp only [work, wait, hQueue, hIdle.2, ControlEvent.turn, List.length_cons, if_true,
        Option.isSome_some, Option.isSome_none, Bool.false_eq_true, if_false, Option.map_some,
        Option.getD_some]
      omega
  | supervised e supervisor hOther hStep =>
    cases Supervisor.act_of_step hStep with
    | bootDuplicate desc boot hBoot hOld | bootSpawned desc boot hBoot hNew =>
      simp only [work, wait, hBoot, ControlEvent.turn, List.length_cons, if_true]
      omega
    | addDuplicate desc | added desc => exact absurd rfl (hOther _)
    | removeMissing name | removed name => exact absurd rfl (hOther _)
    | joined r hRemoval hFinished | timedOut r hRemoval hDeadline hUnfinished =>
      simp only [work, wait, hRemoval, ControlEvent.turn, if_true, Option.isSome_some,
        Option.isSome_none, Bool.false_eq_true, if_false, Option.map_none, Option.getD_none]
      omega
    | task i e t t' fatal hTask hStep' =>
      simp only [work, wait, ControlEvent.turn, Bool.false_eq_true, if_false]
      omega
    | advance =>
      have hWait : ({ s with supervisor := { s.supervisor with now := s.supervisor.now + 1 } }).wait ≤
          s.wait := by
        unfold wait
        cases s.supervisor.removal with
        | none => exact le_rfl
        | some r =>
          simp only [Option.map_some, Option.getD_some]
          omega
      exact ⟨le_rfl, hWait.trans (Nat.le_add_right _ _)⟩

/-- No deadline lies further ahead than the timeout. -/
theorem deadline_of_reaches {criticalThreshold : UInt32} {boot : List SourceDescriptor}
    (h : Reaches (step d) (new criticalThreshold boot) s) :
    ∀ r, s.supervisor.removal = some r → r.deadline ≤ s.supervisor.now + retireTimeout := by
  refine h.invariant (I := fun s => ∀ r, s.supervisor.removal = some r →
    r.deadline ≤ s.supervisor.now + retireTimeout) nofun ?_
  intro s e s' hOld hStep r hRemoval
  cases act_of_step hStep with
  | received cmd queue supervisor hQueue hStep' =>
    cases Supervisor.act_of_step hStep' with
    | removed name i hIdle hName =>
      cases hRemoval
      exact le_rfl
    | _ => exact hOld r hRemoval
  | supervised e supervisor hOther hStep' =>
    cases Supervisor.act_of_step hStep' with
    | addDuplicate desc | added desc => exact absurd rfl (hOther _)
    | removeMissing name | removed name => exact absurd rfl (hOther _)
    | joined | timedOut => cases hRemoval
    | advance =>
      have hBefore := hOld r hRemoval
      dsimp only
      omega
    | _ => exact hOld r hRemoval
  | _ => exact hOld r hRemoval

/-- Short of the end, one of the two can take its turn, unless the supervisor is on hold. -/
theorem exists_turn (d : Discovery)
    (hDeadline : ∀ r, s.supervisor.removal = some r → r.deadline ≤ s.supervisor.now + retireTimeout)
    (hMore : ¬ s.Settled) (hFree : ¬ s.OnHold) :
    ∃ e, e.turn ∧ e.tree = none ∧ (s.step d e).isSome := by
  cases hRemoval : s.supervisor.removal with
  | some r =>
    cases hFinished : s.supervisor.finished r.task with
    | true =>
      refine ⟨.supervised .joined, rfl, rfl, ?_⟩
      simp [step, Supervisor.step, hRemoval, hFinished]
    | false =>
      have hOver : r.deadline ≤ s.supervisor.now := by
        by_contra hEarly
        exact hFree ⟨r, hRemoval, Nat.lt_of_not_le hEarly, hDeadline r hRemoval, hFinished⟩
      refine ⟨.supervised .timedOut, rfl, rfl, ?_⟩
      simp [step, Supervisor.step, hRemoval, hFinished, hOver]
  | none =>
    cases hBoot : s.supervisor.boot with
    | cons desc boot =>
      refine ⟨.supervised .spawnBoot, rfl, rfl, ?_⟩
      simp [step, Supervisor.step, hBoot]
    | nil =>
      cases hQueue : s.queue with
      | cons cmd queue =>
        refine ⟨.received, rfl, rfl, ?_⟩
        simp [step, hQueue, Supervisor.step, hBoot, hRemoval]
      | nil =>
        cases hScan : s.scan with
        | waiting => exact absurd ⟨hBoot, hRemoval, hQueue, hScan⟩ hMore
        | sending current rest =>
          cases rest with
          | nil =>
            refine ⟨.published, rfl, rfl, ?_⟩
            simp [step, hScan]
          | cons cmd rest =>
            refine ⟨.sent, rfl, rfl, ?_⟩
            simp [step, hScan, hQueue, commandCapacity]

/-- Where the supervisor is on hold, time passes. -/
theorem OnHold.wait_lt (h : s.OnHold) : ∃ s', s.step d (.supervised .advance) = some s' ∧
    s'.work = s.work ∧ s'.wait < s.wait := by
  obtain ⟨r, hRemoval, hEarly, -, -⟩ := h
  refine ⟨_, rfl, rfl, ?_⟩
  simp only [wait, hRemoval, Option.map_some, Option.getD_some]
  omega

/-- With the clock and without a new scan, the two come to the end of their work. -/
theorem exists_settled {criticalThreshold : UInt32} {boot : List SourceDescriptor}
    (h : Reaches (step d) (new criticalThreshold boot) s) :
    ∃ more t, Run (step d) Unscanned s more t ∧ t.Settled ∧
      more.length ≤ (retireTimeout + 1) * s.work + retireTimeout := by
  have hWait : s.wait ≤ retireTimeout := by
    have hDeadline := deadline_of_reaches h
    unfold wait
    cases hRemoval : s.supervisor.removal with
    | none => exact Nat.zero_le _
    | some r =>
      have hBefore := hDeadline r hRemoval
      simp only [Option.map_some, Option.getD_some]
      omega
  have hTurn (a : ControlPlane) (hReach : Reaches (step d) (new criticalThreshold boot) a)
      (hMore : ¬ a.Settled) : ∃ e b, Unscanned a e ∧ step d a e = some b ∧
        Reaches (step d) (new criticalThreshold boot) b ∧
        (retireTimeout + 1) * b.work + b.wait < (retireTimeout + 1) * a.work + a.wait := by
    by_cases hHold : a.OnHold
    · obtain ⟨b, hStep, hWork, hLess⟩ := hHold.wait_lt (d := d)
      refine ⟨.supervised .advance, b, rfl, hStep, hReach.tail hStep, ?_⟩
      rw [hWork]
      omega
    · obtain ⟨e, hTurn, hUnscanned, hSome⟩ := exists_turn d (deadline_of_reaches hReach) hMore hHold
      obtain ⟨b, hStep⟩ := Option.isSome_iff_exists.mp hSome
      have hLess := work_of_act (act_of_step hStep) hUnscanned
      rw [if_pos hTurn] at hLess
      refine ⟨e, b, hUnscanned, hStep, hReach.tail hStep, ?_⟩
      simp only [retireTimeout] at hLess ⊢
      omega
  obtain ⟨more, t, hRun, -, hSettled, hLength⟩ := exists_run_to s h hTurn
  exact ⟨more, t, hRun, hSettled, by omega⟩

theorem lastScan_append {events more : List ControlEvent} (h : ∀ e ∈ more, e.tree = none) :
    lastScan (events ++ more) = lastScan events := by
  rw [lastScan, lastScan, List.filterMap_append, List.filterMap_eq_nil_iff.mpr h, List.append_nil]

/-- At rest, the supervisor watches what the last scan found, and discovery says so. -/
theorem Follows.settled {events : List ControlEvent} (h : Follows d events s) (hSettled : s.Settled)
    {fs : Fs} (hLast : lastScan events = some fs) :
    s.supervisor.registered = watched (discover fs d.dataRoot) ∧
      s.workspaces = (discover fs d.dataRoot).length := by
  have hPerm := h.target fs hLast
  have hReplay := h.agrees.replay
  rw [hSettled.queue, unsent, hSettled.scan] at hReplay
  have hRegistered : s.supervisor.registered = names s.target := Option.some.inj hReplay
  have hNodup := sourceNames_nodup (h.slashFree fs hLast) d.dataRoot
  have hKeys : s.target.keys.Perm (byName (discover fs d.dataRoot)).keys := hPerm.map Sigma.fst
  refine ⟨?_, ?_⟩
  · rw [hRegistered, names_of_perm hPerm, names_byName]
  · rw [h.published hSettled.scan, hKeys.length_eq, (keys_byName_perm hNodup).length_eq,
      List.length_map]

/-- From wherever the two parties stand, until the next scan they take no more turns than there is work,
in whatever order, with whatever the tasks and the clock do in between; they stop only where all is done,
or for no longer than the timeout while a removal waits for its task; where all is done the registry holds
what the last scan found; and it can come to that within a time known beforehand. -/
theorem every_scan_is_carried_out (d : Discovery) (cfg : Config) (boot : List SourceDescriptor)
    (hBoot : cfg.sources = .ok boot) (events : List ControlEvent) (s : ControlPlane)
    (hRun : Run (step d) SlashFreeScan (new cfg.criticalThreshold boot) events s) (fs : Fs)
    (hLast : lastScan events = some fs) :
    (∀ more t, Run (step d) Unscanned s more t →
      more.countP ControlEvent.turn ≤ s.work ∧
      ((∀ e, e.turn → t.step d e = none) → t.Settled ∨ t.OnHold) ∧
      (t.Settled → t.supervisor.registered = watched (discover fs d.dataRoot) ∧
        t.workspaces = (discover fs d.dataRoot).length)) ∧
    ∃ more t, Run (step d) Unscanned s more t ∧ t.Settled ∧
      more.length ≤ (retireTimeout + 1) * s.work + retireTimeout := by
  refine ⟨fun more t hMore => ⟨?_, fun hStuck => ?_, fun hSettled => ?_⟩, exists_settled hRun.reaches⟩
  · have hBound : more.countP ControlEvent.turn + t.work ≤ s.work :=
      hMore.countP_add_rank_le (I := fun _ => True) trivial fun a e b _ hUnscanned hStep =>
        ⟨trivial, (work_of_act (act_of_step hStep) hUnscanned).1⟩
    omega
  · by_contra hNeither
    obtain ⟨hUnsettled, hFree⟩ := not_or.mp hNeither
    have hReach := hRun.reaches.trans hMore.reaches
    obtain ⟨e, hTurn, -, hSome⟩ := exists_turn d (deadline_of_reaches hReach) hUnsettled hFree
    rw [hStuck e hTurn] at hSome
    cases hSome
  · have hScans : ∀ e ∈ more, e.tree = none := hMore.forall_labels fun _ _ h => h
    have hAll : Run (step d) SlashFreeScan (new cfg.criticalThreshold boot) (events ++ more) t := by
      refine hRun.append (hMore.mono fun _ e hUnscanned fs hfs => ?_)
      rw [show e.tree = none from hUnscanned] at hfs
      cases hfs
    exact (follows_of_run (fun _ => name_of_mem_sources hBoot) hAll).settled hSettled
      ((lastScan_append hScans).trans hLast)

/-- As the first scan has just ended, nothing of it has been sent. -/
theorem one_workspace_is_carried_in : ∃ s : ControlPlane,
    exec (step sampleDiscovery) (new sampleConfig.criticalThreshold sampleBoot)
      (oneWorkspaceFound.take 4) = some s ∧
    ∃ more t, Run (step sampleDiscovery) Unscanned s more t ∧
      t.supervisor.registered = watched (discover (sampleDisk []).fs sampleDiscovery.dataRoot) := by
  have hSome : (exec (step sampleDiscovery) (new sampleConfig.criticalThreshold sampleBoot)
      (oneWorkspaceFound.take 4)).isSome := by decide
  obtain ⟨s, hExec⟩ := Option.isSome_iff_exists.mp hSome
  have hRun : Run (step sampleDiscovery) SlashFreeScan (new sampleConfig.criticalThreshold sampleBoot)
      (oneWorkspaceFound.take 4) s := by
    apply (run_of_exec hExec).of_labels
    intro e he a fs hfs
    have hTree : fs ∈ (oneWorkspaceFound.take 4).filterMap ControlEvent.tree :=
      List.mem_filterMap.mpr ⟨e, he, hfs⟩
    obtain rfl := List.mem_singleton.mp hTree
    exact Disk.slashFree (by decide)
  obtain ⟨hAny, more, t, hMore, hSettled, -⟩ := every_scan_is_carried_out sampleDiscovery sampleConfig
    sampleBoot rfl (oneWorkspaceFound.take 4) s hRun (sampleDisk []).fs rfl
  exact ⟨s, hExec, more, t, hMore, ((hAny more t hMore).2.2 hSettled).1⟩

end ControlPlane

end HarnessSphere
