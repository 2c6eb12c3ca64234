import Mathlib.Tactic.Ring
import HarnessSphere.Library.Machine
import HarnessSphere.Collectors.Series

/-! # The cron flag

What a transcript counts for is read off the emitted totals: a tick's values against those of the
same tick without the transcript. The flag of a transcript is taken from its meta file when the
transcript is first tracked, and kept as long as the transcript stays listed.
-/

namespace HarnessSphere

open Machine

/-- What a batch adds up to on a series. -/
def addedUp (signals : List Signal) (s : Series) : F64 :=
  ((gaugeWrites signals).map fun w => if w.1 = s then w.2 else 0).sum

namespace SessionCollector

section Specification

variable (fromStr : Json.FromStr)

/-- The meta file of the transcript parses with a key beginning with `agent:cron-`. -/
def SaysCron (fs : Fs) (p : Path) : Prop :=
  ∃ raw v key, fs.readToString (p.withExtension "meta.json") = some raw ∧ fromStr raw = some v ∧
    v.get "key" = some (.string key) ∧ "agent:cron-".toList <+: key.toList

/-- What the transcript adds on a series to what the tick emits. -/
def effect (fs : Fs) (c : SessionCollector) (p : Path) (s : Series) : F64 :=
  addedUp (collect fromStr fs c).2.1 s -
    addedUp (c.signals (totals ((collect fromStr fs c).1.files.erase p))) s

/-- The transcript adds a cron session to what the tick emits and nothing else. -/
def CronCounted (fs : Fs) (c : SessionCollector) (p : Path) : Prop :=
  ∀ s, effect fromStr fs c p s = if s = c.cronSessionsSeries then 1 else 0

/-- The transcript adds a session, its tool calls and its messages by role, and no cron session. -/
def SessionCounted (fs : Fs) (c : SessionCollector) (p : Path) : Prop :=
  effect fromStr fs c p c.sessionsSeries = 1 ∧ effect fromStr fs c p c.cronSessionsSeries = 0 ∧
    ∃ state, (collect fromStr fs c).1.files.lookup p = some state ∧
      effect fromStr fs c p c.toolCallsSeries = state.toolCalls ∧
        ∀ role, effect fromStr fs c p (c.messagesSeries role) = state.roles.bag.count role

def renewed (c : SessionCollector) : SessionCollector := { c with files := ∅ }

/-- After a tick that returns `Ok` every transcript it could examine counts as it does with a new
collector on the same disk, which is what its meta file says. -/
def ClassifiesAfresh (c : SessionCollector) (fs : Fs) : Prop :=
  (collect fromStr fs c).2.2 = .ok () → ∀ p ∈ c.present fs, (fs.metadata p).isSome →
    (CronCounted fromStr fs c p ↔ CronCounted fromStr fs c.renewed p) ∧
      (CronCounted fromStr fs c.renewed p ↔ SaysCron fromStr fs p) ∧
        (SessionCounted fromStr fs c p ↔ ¬ CronCounted fromStr fs c p)

/-- A tick on the disk lists the transcript and can examine it. -/
def Examined (w : Workspace) (fs : Fs) (p : Path) : Prop :=
  p ∈ transcripts fs (w.sessionDirs fs) ∧ (fs.metadata p).isSome

/-- A tick on the disk fails or lists the transcript. -/
def StaysListed (w : Workspace) (fs : Fs) (p : Path) : Prop :=
  w.sessionDirs fs = [] ∨ p ∈ transcripts fs (w.sessionDirs fs)

/-- As long as a transcript stays listed, its meta file says the same at all disks where the
transcript can be examined. -/
def MetaSteady (w : Workspace) (disks : List Fs) : Prop :=
  ∀ before fs between fs' later, disks = before ++ fs :: (between ++ fs' :: later) →
    ∀ p, Examined w fs p → (∀ g ∈ between, StaysListed w g p) → Examined w fs' p →
      (SaysCron fromStr fs p ↔ SaysCron fromStr fs' p)

def tick (c : SessionCollector) (fs : Fs) : Option SessionCollector := some (collect fromStr fs c).1

end Specification

variable {fromStr : Json.FromStr}

theorem isCron_iff {fs : Fs} {p : Path} : isCron fromStr fs p = true ↔ SaysCron fromStr fs p := by
  unfold isCron SaysCron
  cases fs.readToString (p.withExtension "meta.json") with
  | none => simp
  | some raw =>
    cases hParse : fromStr raw with
    | none => simp [hParse]
    | some v =>
      cases hKey : v.get "key" with
      | none => simp [hParse, hKey]
      | some key => cases key <;> simp [hParse, hKey, Json.Value.asStr, startsWith]

section Effect

variable (c : SessionCollector)

/-- What a share of the totals puts on a series. -/
def weigh (s : Series) (x : Tally × ℕ × ℕ) : F64 :=
  (x.1.1.map fun role => if c.messagesSeries role = s then (1 : F64) else 0).sum +
    ((if c.toolCallsSeries = s then (x.1.2 : F64) else 0) +
      ((if c.sessionsSeries = s then (x.2.1 : F64) else 0) +
        if c.cronSessionsSeries = s then (x.2.2 : F64) else 0))

theorem weigh_add (s : Series) (x y : Tally × ℕ × ℕ) :
    c.weigh s (x + y) = c.weigh s x + c.weigh s y := by
  simp only [weigh, Prod.fst_add, Prod.snd_add, Multiset.map_add, Multiset.sum_add, Nat.cast_add,
    ite_add_zero]
  ring

theorem addedUp_signals (t : SessionTotals) (s : Series) :
    addedUp (c.signals t) s = c.weigh s (sum t) := by
  rw [addedUp, writes_signals, List.map_append, List.sum_append, List.map_map]
  simp [weigh, sum, Counters.sum_map_bag, Function.comp_def]

theorem sum_totals_erase {files : Table Path FileState} {p : Path} {state : FileState}
    (h : files.lookup p = some state) :
    sum (totals files) = share state + sum (totals (files.erase p)) := by
  rw [sum_totals, sum_totals, ((Table.entries_perm_erase h).map _).sum_eq, List.map_cons,
    List.sum_cons]

variable {c}

/-- What a transcript adds is its share of the totals, once the tick has found sessions. -/
theorem effect_eq {fs : Fs} {p : Path} {state : FileState} (hDirs : c.workspace.sessionDirs fs ≠ [])
    (h : (collect fromStr fs c).1.files.lookup p = some state) (s : Series) :
    effect fromStr fs c p s = c.weigh s (share state) := by
  rw [effect]
  rw [collect_of_dirs hDirs] at h ⊢
  rw [addedUp_signals, addedUp_signals, sum_totals_erase h, weigh_add, add_sub_cancel_right]

theorem weigh_sessions (x : Tally × ℕ × ℕ) : c.weigh c.sessionsSeries x = x.2.1 := by
  simp [weigh, messagesSeries, toolCallsSeries, sessionsSeries, cronSessionsSeries,
    Workspace.series_eq_iff]

theorem weigh_cronSessions (x : Tally × ℕ × ℕ) : c.weigh c.cronSessionsSeries x = x.2.2 := by
  simp [weigh, messagesSeries, toolCallsSeries, sessionsSeries, cronSessionsSeries,
    Workspace.series_eq_iff]

theorem weigh_toolCalls (x : Tally × ℕ × ℕ) : c.weigh c.toolCallsSeries x = x.1.2 := by
  simp [weigh, messagesSeries, toolCallsSeries, sessionsSeries, cronSessionsSeries,
    Workspace.series_eq_iff]

theorem weigh_messages (role : String) (x : Tally × ℕ × ℕ) :
    c.weigh (c.messagesSeries role) x = x.1.1.count role := by
  simp [weigh, messagesSeries, toolCallsSeries, sessionsSeries, cronSessionsSeries,
    Workspace.series_eq_iff, Counters.sum_indicator]

end Effect

theorem cronCounted_iff {c : SessionCollector} {fs : Fs} {p : Path}
    (hDirs : c.workspace.sessionDirs fs ≠ [])
    (hTracked : ((collect fromStr fs c).1.files.lookup p).isSome) :
    CronCounted fromStr fs c p ↔
      ((collect fromStr fs c).1.files.lookup p).map FileState.cron = some true := by
  obtain ⟨state, hLookup⟩ := Option.isSome_iff_exists.mp hTracked
  simp only [CronCounted, effect_eq hDirs hLookup]
  rw [hLookup]
  cases hCron : state.cron with
  | true =>
    simp only [hCron, Option.map_some, iff_true, share, if_true]
    intro s
    simp [weigh, eq_comm]
  | false =>
    simp only [hCron, Option.map_some, Option.some.injEq, Bool.false_eq_true, iff_false]
    intro h
    have hSession := h c.cronSessionsSeries
    rw [weigh_cronSessions] at hSession
    simp [share, hCron] at hSession

theorem sessionCounted_iff {c : SessionCollector} {fs : Fs} {p : Path}
    (hDirs : c.workspace.sessionDirs fs ≠ [])
    (hTracked : ((collect fromStr fs c).1.files.lookup p).isSome) :
    SessionCounted fromStr fs c p ↔
      ((collect fromStr fs c).1.files.lookup p).map FileState.cron = some false := by
  obtain ⟨state, hLookup⟩ := Option.isSome_iff_exists.mp hTracked
  simp only [SessionCounted, effect_eq hDirs hLookup, weigh_sessions, weigh_cronSessions,
    weigh_toolCalls, weigh_messages]
  rw [hLookup]
  cases hCron : state.cron with
  | true => simp [hCron, share]
  | false => simp [hCron, share, FileState.tally]

theorem tracked_collect {fs : Fs} {c : SessionCollector} {p : Path} (hPresent : p ∈ c.present fs)
    (hMeta : (fs.metadata p).isSome) :
    ((collect fromStr fs c).1.files.lookup p).map FileState.cron =
      some (((c.files.lookup p).map FileState.cron).getD (isCron fromStr fs p)) := by
  obtain ⟨m, hMeta⟩ := Option.isSome_iff_exists.mp hMeta
  rw [lookup_collect hPresent, revisit, hMeta]
  dsimp only
  rw [Option.map_some, (readNew_spec _ _ _ _).2.1]

/-- What a tick can examine counts by the flag on record, or else by its meta file. -/
theorem counted_iff {c : SessionCollector} {fs : Fs} {p : Path} (hp : p ∈ c.present fs)
    (hMeta : (fs.metadata p).isSome) :
    (CronCounted fromStr fs c p ↔
        ((c.files.lookup p).map FileState.cron).getD (isCron fromStr fs p) = true) ∧
      (SessionCounted fromStr fs c p ↔ ¬ CronCounted fromStr fs c p) := by
  have hFlag := @tracked_collect fromStr fs c p hp hMeta
  have hTracked : ((collect fromStr fs c).1.files.lookup p).isSome := by
    rw [← Option.isSome_map (f := FileState.cron), hFlag]
    rfl
  rw [sessionCounted_iff (dirs_of_mem_present hp) hTracked,
    cronCounted_iff (dirs_of_mem_present hp) hTracked, hFlag]
  simp

theorem cronCounted_renewed {c : SessionCollector} {fs : Fs} {p : Path} (hp : p ∈ c.present fs)
    (hMeta : (fs.metadata p).isSome) :
    CronCounted fromStr fs c.renewed p ↔ SaysCron fromStr fs p := by
  have hPresent : p ∈ c.renewed.present fs := hp
  rw [(counted_iff hPresent hMeta).1, ← isCron_iff]
  simp [renewed]

/-- A tick classifies afresh exactly if the flags on record of what it examines are those of the
disk. -/
theorem classifiesAfresh_iff (c : SessionCollector) (fs : Fs) :
    ClassifiesAfresh fromStr c fs ↔ ∀ p, Examined c.workspace fs p → ∀ flag,
      (c.files.lookup p).map FileState.cron = some flag → (flag = true ↔ SaysCron fromStr fs p) := by
  constructor
  · rintro hClassifies p ⟨hp, hMeta⟩ flag hFlag
    have hOk : (collect fromStr fs c).2.2 = .ok () := by
      rw [collect_of_dirs (dirs_of_mem_present hp)]
    obtain ⟨hSame, hDisk, -⟩ := hClassifies hOk p hp hMeta
    rw [hDisk, (counted_iff hp hMeta).1, hFlag] at hSame
    simpa using hSame
  · intro hCurrent _ p hp hMeta
    refine ⟨?_, cronCounted_renewed hp hMeta, (counted_iff hp hMeta).2⟩
    rw [cronCounted_renewed hp hMeta, (counted_iff hp hMeta).1]
    cases hFlag : (c.files.lookup p).map FileState.cron with
    | none => simpa using isCron_iff
    | some flag => simpa using hCurrent p ⟨hp, hMeta⟩ flag hFlag

section Runs

variable {ok : SessionCollector → Fs → Prop} {c d : SessionCollector} {disks : List Fs}

theorem workspace_run (r : Run (tick fromStr) ok c disks d) : d.workspace = c.workspace := by
  apply r.invariant (I := fun d => d.workspace = c.workspace) rfl
  rintro a fs _ ha - hStep
  cases hStep
  rw [workspace_collect, ha]

/-- The flag of a tracked transcript is kept as long as the transcript stays listed. -/
theorem flag_step {fs : Fs} {p : Path} {flag : Bool} (hListed : StaysListed c.workspace fs p)
    (h : (c.files.lookup p).map FileState.cron = some flag) :
    ((collect fromStr fs c).1.files.lookup p).map FileState.cron = some flag := by
  obtain hDirs | hp := hListed
  · rw [collect, if_pos hDirs]
    exact h
  · cases hMeta : fs.metadata p with
    | none =>
      rw [lookup_collect hp, revisit, hMeta]
      exact h
    | some m =>
      rw [tracked_collect hp (by rw [hMeta]; rfl), h]
      rfl

/-- A flag on record after a tick was there before, or is what the meta file says. -/
theorem flag_cases {fs : Fs} {p : Path} {flag : Bool}
    (h : ((collect fromStr fs c).1.files.lookup p).map FileState.cron = some flag) :
    (StaysListed c.workspace fs p ∧ (c.files.lookup p).map FileState.cron = some flag) ∨
      (Examined c.workspace fs p ∧ (flag = true ↔ SaysCron fromStr fs p)) := by
  obtain ⟨hDirs, e, hCollect⟩ | ⟨hDirs, -⟩ := collect_cases fromStr fs c
  · rw [hCollect] at h
    exact .inl ⟨.inl hDirs, h⟩
  · have hp : p ∈ c.present fs := by
      by_contra hp
      rw [collect_of_dirs hDirs, lookup_refresh fs c.files (c.present_nodup fs), if_neg hp] at h
      cases h
    cases hOld : (c.files.lookup p).map FileState.cron with
    | some old =>
      have hKept : ((collect fromStr fs c).1.files.lookup p).map FileState.cron = some old :=
        flag_step (.inr hp) hOld
      rw [h] at hKept
      exact .inl ⟨.inr hp, hKept.symm⟩
    | none =>
      have hMeta : (fs.metadata p).isSome := by
        by_contra hMeta
        rw [Option.not_isSome_iff_eq_none] at hMeta
        rw [lookup_collect hp, revisit, hMeta, hOld] at h
        cases h
      rw [tracked_collect hp hMeta, hOld] at h
      obtain rfl := Option.some.inj h
      exact .inr ⟨⟨hp, hMeta⟩, isCron_iff⟩

theorem flag_run {p : Path} {flag : Bool} (r : Run (tick fromStr) ok c disks d)
    (hListed : ∀ fs ∈ disks, StaysListed c.workspace fs p)
    (h : (c.files.lookup p).map FileState.cron = some flag) :
    (d.files.lookup p).map FileState.cron = some flag := by
  induction r with
  | nil => exact h
  | snoc r _ hStep ih =>
    cases hStep
    rw [List.forall_mem_append, List.forall_mem_singleton, ← workspace_run r] at hListed
    apply flag_step hListed.2
    exact ih (workspace_run r ▸ hListed.1)

/-- Every flag on record was read off the disk at which the transcript was first tracked, and the
transcript has stayed listed since. -/
theorem flag_origin {p : Path} {flag : Bool} (hFiles : c.files = ∅)
    (r : Run (tick fromStr) ok c disks d) (h : (d.files.lookup p).map FileState.cron = some flag) :
    ∃ before fs between, disks = before ++ fs :: between ∧ Examined c.workspace fs p ∧
      (∀ g ∈ between, StaysListed c.workspace g p) ∧ (flag = true ↔ SaysCron fromStr fs p) := by
  induction r generalizing flag with
  | nil => simp [hFiles] at h
  | @snoc t _ ls fs r _ hStep ih =>
    cases hStep
    obtain ⟨hListed, hOld⟩ | ⟨hExamined, hFlag⟩ := flag_cases h
    · obtain ⟨before, first, between, rfl, hExamined, hBetween, hFlag⟩ := ih hOld
      rw [workspace_run r] at hListed
      exact ⟨before, first, between ++ [fs], by simp, hExamined,
        List.forall_mem_append.mpr ⟨hBetween, List.forall_mem_singleton.mpr hListed⟩, hFlag⟩
    · rw [workspace_run r] at hExamined
      exact ⟨ls, fs, [], rfl, hExamined, by simp, hFlag⟩

theorem flag_of_classifies {fs : Fs} {p : Path} (hClassifies : ClassifiesAfresh fromStr c fs)
    (hExamined : Examined c.workspace fs p) :
    ∃ flag, ((collect fromStr fs c).1.files.lookup p).map FileState.cron = some flag ∧
      (flag = true ↔ SaysCron fromStr fs p) := by
  refine ⟨_, tracked_collect hExamined.1 hExamined.2, ?_⟩
  cases hOld : (c.files.lookup p).map FileState.cron with
  | none => exact isCron_iff
  | some flag => exact (classifiesAfresh_iff c fs).mp hClassifies p hExamined flag hOld

theorem metaSteady_of_append {w : Workspace} {more : List Fs}
    (h : MetaSteady fromStr w (disks ++ more)) : MetaSteady fromStr w disks := by
  rintro before fs between fs' later rfl
  exact h before fs between fs' (later ++ more) (by simp)

end Runs

/-- All ticks of a run classify as a new collector would exactly if no meta file changes what it
says while its transcript stays listed. -/
theorem cron_classification_iff (fromStr : Json.FromStr) (w : Workspace) (source : String)
    (interval : Duration) (disks : List Fs) :
    (∃ c, Run (tick fromStr) (ClassifiesAfresh fromStr) (.new w source interval) disks c) ↔
      MetaSteady fromStr w disks := by
  constructor
  · rintro ⟨d, r⟩ before fs between fs' later rfl p hFirst hBetween hLast
    obtain ⟨c, hBefore, r⟩ := run_append_iff.mp r
    obtain ⟨_, hTracks, ⟨⟩, r⟩ := run_cons_iff.mp r
    obtain ⟨e, hKeeps, r⟩ := run_append_iff.mp r
    obtain ⟨_, hClassifies, -, -⟩ := run_cons_iff.mp r
    have hc : c.workspace = w := workspace_run hBefore
    have hTracked : (collect fromStr fs c).1.workspace = w := by rw [workspace_collect, hc]
    have he : e.workspace = w := (workspace_run hKeeps).trans hTracked
    obtain ⟨flag, hFlag, hSaid⟩ := flag_of_classifies hTracks (hc.symm ▸ hFirst)
    have hKept := flag_run hKeeps (hTracked.symm ▸ hBetween) hFlag
    rw [← hSaid]
    exact (classifiesAfresh_iff e fs').mp hClassifies p (he.symm ▸ hLast) flag hKept
  · intro hSteady
    induction disks using List.reverseRecOn with
    | nil => exact ⟨_, .nil⟩
    | append_singleton disks fs ih =>
      obtain ⟨c, r⟩ := ih (metaSteady_of_append hSteady)
      have hc : c.workspace = w := workspace_run r
      refine ⟨_, r.snoc ((classifiesAfresh_iff c fs).mpr ?_) rfl⟩
      intro p hExamined flag hFlag
      obtain ⟨before, first, between, rfl, hFirst, hBetween, hSaid⟩ := flag_origin rfl r hFlag
      rw [hSaid]
      exact hSteady before first between fs [] (by simp) p hFirst hBetween (hc ▸ hExamined)

def beforeMeta : Fs := (sampleDisk [("nightly.jsonl", [])]).fs

def afterMeta : Fs :=
  (sampleDisk [("nightly.jsonl", []), ("nightly.meta.json", OsString.ofStr cronMeta)]).fs

theorem a_late_meta_file_is_ignored :
    ¬ ∃ c, Run (tick sampleFromStr) (ClassifiesAfresh sampleFromStr) sampleCollector
      [beforeMeta, afterMeta] c := by
  rintro ⟨c, r⟩
  obtain ⟨_, -, ⟨⟩, r⟩ := run_cons_iff.mp r
  obtain ⟨_, hClassifies, -, -⟩ := run_cons_iff.mp r
  have hFlag := (classifiesAfresh_iff _ _).mp hClassifies (sampleSessions.join "nightly.jsonl")
    ⟨by decide, by decide⟩ false (by decide)
  rw [← isCron_iff] at hFlag
  revert hFlag
  decide

end SessionCollector

end HarnessSphere
