import HarnessSphere.Library.Machine
import HarnessSphere.Collectors.Session
import HarnessSphere.Collectors.Learning

/-! # Series over the life of a collector

A collector is watched from its creation on, with everything it emitted. Two promises are followed
through all runs over a changing disk: a retirement zeroes each series of the run, and a tick writes
again each series written before. Both break where a series is keyed by data, and exactly there.
-/

namespace HarnessSphere

open Machine

structure Watched (σ : Type) where
  collector : σ
  log : List Signal

abbrev Collect (σ : Type) := Fs → σ → σ × List Signal × Except CollectError Unit

def Emitted (signals : List Signal) (s : Series) : Prop := ∃ v, (s, v) ∈ gaugeWrites signals

instance (signals : List Signal) (s : Series) : Decidable (Emitted signals s) :=
  decidable_of_iff (s ∈ (gaugeWrites signals).map Prod.fst) (by simp [Emitted])

theorem emitted_append {xs ys : List Signal} {s : Series} :
    Emitted (xs ++ ys) s ↔ Emitted xs s ∨ Emitted ys s := by
  simp [Emitted, gaugeWrites_append, exists_or]

namespace Watched

variable {σ : Type} (collect : Collect σ)

def tick (w : Watched σ) (fs : Fs) : Option (Watched σ) :=
  some ⟨(collect fs w.collector).1, w.log ++ (collect fs w.collector).2.1⟩

def start (c : σ) : Watched σ := ⟨c, []⟩

def after (c : σ) (disks : List Fs) : Watched σ :=
  disks.foldl (fun w fs => ⟨(collect fs w.collector).1, w.log ++ (collect fs w.collector).2.1⟩) (start c)

theorem after_snoc (c : σ) (disks : List Fs) (fs : Fs) :
    after collect c (disks ++ [fs]) =
      ⟨(collect fs (after collect c disks).collector).1,
        (after collect c disks).log ++ (collect fs (after collect c disks).collector).2.1⟩ := by
  simp [after]

theorem run_after (c : σ) (disks : List Fs) :
    Run (tick collect) Any (start c) disks (after collect c disks) := by
  induction disks using List.reverseRecOn with
  | nil => exact .nil
  | append_singleton disks fs ih =>
    rw [after_snoc]
    exact .snoc ih trivial rfl

theorem run_after_snoc {ok : Watched σ → Fs → Prop} (c : σ) (disks : List Fs) (fs : Fs) :
    Run (tick collect) ok (start c) (disks ++ [fs]) (after collect c (disks ++ [fs])) ↔
      Run (tick collect) ok (start c) disks (after collect c disks) ∧ ok (after collect c disks) fs := by
  rw [run_snoc_iff]
  constructor
  · rintro ⟨w, r, hOk, -⟩
    obtain rfl := r.unique (run_after collect c disks)
    exact ⟨r, hOk⟩
  · rintro ⟨r, hOk⟩
    exact ⟨_, r, hOk, by rw [after_snoc]; rfl⟩

/-- Each series of the log is among the terminal signals, with value zero. -/
def Zeroes (retire : σ → List Signal) (w : Watched σ) : Prop :=
  ∀ s, Emitted w.log s → (s, 0) ∈ gaugeWrites (retire w.collector)

/-- A tick that returns `Ok` writes each series of the log again, and writes current values only. -/
def Rewrites (current : Fs → σ → Series → F64 → Prop) (w : Watched σ) (fs : Fs) : Prop :=
  (collect fs w.collector).2.2 = .ok () →
    (∀ s, Emitted w.log s → Emitted (collect fs w.collector).2.1 s) ∧
      ∀ s v, (s, v) ∈ gaugeWrites (collect fs w.collector).2.1 → current fs w.collector s v

end Watched

namespace SessionCollector

variable {fromStr : Json.FromStr}

/-- A conversation holds the role from before and is not read from the start again. -/
def KeptAt (fs : Fs) (p : Path) (old : Option FileState) (role : String) : Prop :=
  ∃ state, old = some state ∧ state.cron = false ∧ role ∈ state.roles.bag ∧
    ∀ m, fs.metadata p = some m → state.offset ≤ m.len

variable (fromStr) in
/-- The whole lines taken in from a conversation hold a record with the role. -/
def BroughtAt (fs : Fs) (p : Path) (old : Option FileState) (role : String) : Prop :=
  ∃ m, fs.metadata p = some m ∧ (old.map FileState.cron).getD (isCron fromStr fs p) = false ∧
    ∃ line ∈ lines (newText fs (old.getD default) p m.len), roleOf fromStr line = some role

def Kept (c : SessionCollector) (fs : Fs) (role : String) : Prop :=
  ∃ p ∈ c.present fs, KeptAt fs p (c.files.lookup p) role

variable (fromStr) in
def Brought (c : SessionCollector) (fs : Fs) (role : String) : Prop :=
  ∃ p ∈ c.present fs, BroughtAt fromStr fs p (c.files.lookup p) role

theorem revisit_role (fs : Fs) (p : Path) (old : Option FileState) (role : String) :
    (∃ state, revisit fromStr fs p old = some state ∧ state.cron = false ∧
        role ∈ state.roles.bag) ↔
      KeptAt fs p old role ∨ BroughtAt fromStr fs p old role := by
  unfold revisit KeptAt BroughtAt
  cases fs.metadata p with
  | none => simp
  | some m =>
    simp only [Option.some.injEq, exists_eq_left', forall_eq', (readNew_spec _ _ _ _).2.1,
      mem_readNew_roles, newText_cron]
    cases old with
    | none => simp [show (default : FileState).roles = ∅ from rfl]
    | some state =>
      simp only [Option.map_some, Option.getD_some, Option.some.injEq, exists_eq_left']
      rw [and_or_left]

theorem counted_refresh (fs : Fs) (c : SessionCollector) (role : String) :
    Counted (refresh fromStr fs c.files (c.present fs)) role ↔
      Kept c fs role ∨ Brought fromStr c fs role := by
  unfold Counted Kept Brought
  simp only [lookup_refresh fs c.files (c.present_nodup fs), Option.ite_none_right_eq_some, and_assoc]
  rw [← exists_or]
  refine exists_congr fun p => ?_
  rw [← and_or_left, ← revisit_role, exists_and_left]

theorem collect_of_dirs {fs : Fs} {c : SessionCollector} (h : c.workspace.sessionDirs fs ≠ []) :
    collect fromStr fs c =
      ({ c with files := refresh fromStr fs c.files (c.present fs) },
        c.signals (totals (refresh fromStr fs c.files (c.present fs))), .ok ()) := if_neg h

/-- Without session directories a tick fails and changes nothing. -/
theorem collect_cases (fromStr : Json.FromStr) (fs : Fs) (c : SessionCollector) :
    (c.workspace.sessionDirs fs = [] ∧ ∃ e, collect fromStr fs c = (c, [], .error e)) ∨
      (c.workspace.sessionDirs fs ≠ [] ∧ collect fromStr fs c =
        ({ c with files := refresh fromStr fs c.files (c.present fs) },
          c.signals (totals (refresh fromStr fs c.files (c.present fs))), .ok ())) := by
  rcases eq_or_ne (c.workspace.sessionDirs fs) [] with hDirs | hDirs
  · exact .inl ⟨hDirs, _, if_pos hDirs⟩
  · exact .inr ⟨hDirs, collect_of_dirs hDirs⟩

theorem present_of_no_dirs {fs : Fs} {c : SessionCollector} (h : c.workspace.sessionDirs fs = []) :
    c.present fs = [] := by
  rw [present, h]
  rfl

theorem dirs_of_mem_present {fs : Fs} {c : SessionCollector} {p : Path} (h : p ∈ c.present fs) :
    c.workspace.sessionDirs fs ≠ [] := by
  intro hDirs
  rw [present_of_no_dirs hDirs] at h
  cases h

theorem lookup_collect {fs : Fs} {c : SessionCollector} {p : Path} (h : p ∈ c.present fs) :
    (collect fromStr fs c).1.files.lookup p = revisit fromStr fs p (c.files.lookup p) := by
  rw [collect_of_dirs (dirs_of_mem_present h)]
  exact (lookup_refresh fs c.files (c.present_nodup fs) p).trans (if_pos h)

/-- The state of a path after a tick is the old one of an unlisted path, or a revisited one. -/
theorem of_lookup_collect {fs : Fs} {c : SessionCollector} {p : Path} {state : FileState}
    (h : (collect fromStr fs c).1.files.lookup p = some state) :
    (p ∉ c.present fs ∧ c.files.lookup p = some state) ∨
      (p ∈ c.present fs ∧ revisit fromStr fs p (c.files.lookup p) = some state) := by
  rcases collect_cases fromStr fs c with ⟨hDirs, e, hCollect⟩ | ⟨-, hCollect⟩
  · rw [hCollect] at h
    exact .inl ⟨fun hp => dirs_of_mem_present hp hDirs, h⟩
  · rw [hCollect, lookup_refresh fs c.files (c.present_nodup fs)] at h
    obtain ⟨hp, hState⟩ := Option.ite_none_right_eq_some.mp h
    exact .inr ⟨hp, hState⟩

theorem emitted_signals {c : SessionCollector} {t : SessionTotals} {s : Series} :
    Emitted (c.signals t) s ↔
      (∃ role ∈ t.roles.bag, s = c.messagesSeries role) ∨
        s = c.toolCallsSeries ∨ s = c.sessionsSeries ∨ s = c.cronSessionsSeries := by
  simp only [Emitted, mem_writes_signals, exists_or, exists_eq_right]
  apply or_congr_left
  rw [exists_comm]
  simp only [exists_and_left, exists_eq, and_true]

theorem emitted_messages {c : SessionCollector} {t : SessionTotals} {role : String} :
    Emitted (c.signals t) (c.messagesSeries role) ↔ role ∈ t.roles.bag := by
  rw [emitted_signals]
  constructor
  · rintro (⟨role', hRole, hEq⟩ | hEq | hEq | hEq)
    · rwa [c.messagesSeries_injective hEq]
    all_goals simp [messagesSeries, toolCallsSeries, sessionsSeries, cronSessionsSeries,
      Workspace.series_eq_iff] at hEq
  · intro hRole
    exact .inl ⟨role, hRole, rfl⟩

section Runs

variable (fromStr)

def Current (fs : Fs) (c : SessionCollector) (s : Series) (v : F64) : Prop :=
  let sum := ((refresh fromStr fs c.files (c.present fs)).entries.map fun e => share e.2).sum
  (∃ role, s = c.messagesSeries role ∧ v = sum.1.1.count role) ∨
    (s = c.toolCallsSeries ∧ v = sum.1.2) ∨ (s = c.sessionsSeries ∧ v = sum.2.1) ∨
      (s = c.cronSessionsSeries ∧ v = sum.2.2)

/-- No whole line that the tick takes in from a conversation is a record with a role. -/
def NoRoleRead (w : Watched SessionCollector) (fs : Fs) : Prop :=
  ∀ role, ¬ Brought fromStr w.collector fs role

/-- Each role on record before the tick is kept by a listed conversation or brought in anew. -/
def KeepsRoles (w : Watched SessionCollector) (fs : Fs) : Prop :=
  w.collector.workspace.sessionDirs fs ≠ [] → ∀ role, Counted w.collector.files role →
    Kept w.collector fs role ∨ Brought fromStr w.collector fs role

/-- The log holds the three totals and roles only, and every role on record. -/
structure Logged (w : Watched SessionCollector) : Prop where
  known : ∀ s, Emitted w.log s → (∃ role, s = w.collector.messagesSeries role) ∨
    s = w.collector.toolCallsSeries ∨ s = w.collector.sessionsSeries ∨
      s = w.collector.cronSessionsSeries
  counted : ∀ role, Counted w.collector.files role →
    Emitted w.log (w.collector.messagesSeries role)

abbrev watch (c : SessionCollector) (disks : List Fs) : Watched SessionCollector :=
  Watched.after (collect fromStr) c disks

variable {fromStr}

theorem logged_start {c : SessionCollector} (hFiles : c.files = ∅) : Logged (Watched.start c) where
  known := by
    rintro s ⟨v, hv⟩
    cases hv
  counted := by
    rintro role ⟨p, state, hLookup, -⟩
    rw [show (Watched.start c).collector.files = ∅ from hFiles] at hLookup
    cases hLookup

theorem logged_step {w : Watched SessionCollector} (fs : Fs) (h : Logged w) :
    Logged ⟨(collect fromStr fs w.collector).1, w.log ++ (collect fromStr fs w.collector).2.1⟩ := by
  rcases collect_cases fromStr fs w.collector with ⟨-, e, hCollect⟩ | ⟨-, hCollect⟩
  · simpa [hCollect] using h
  · rw [hCollect]
    constructor
    · intro s hs
      rcases emitted_append.mp hs with hs | hs
      · exact h.known s hs
      · rcases emitted_signals.mp hs with ⟨role, -, rfl⟩ | hs
        · exact .inl ⟨role, rfl⟩
        · exact .inr hs
    · intro role hRole
      exact emitted_append.mpr (.inr (emitted_messages.mpr (mem_totals_roles.mpr hRole)))

theorem logged_watch {c : SessionCollector} (hFiles : c.files = ∅) (disks : List Fs) :
    Logged (watch fromStr c disks) := by
  induction disks using List.reverseRecOn with
  | nil => exact logged_start hFiles
  | append_singleton disks fs ih =>
    rw [watch, Watched.after_snoc]
    exact logged_step fs ih

theorem emitted_messages_step (w : Watched SessionCollector) (fs : Fs) (role : String) :
    Emitted (collect fromStr fs w.collector).2.1 (w.collector.messagesSeries role) ↔
      w.collector.workspace.sessionDirs fs ≠ [] ∧
        (Kept w.collector fs role ∨ Brought fromStr w.collector fs role) := by
  rcases collect_cases fromStr fs w.collector with ⟨hDirs, e, hCollect⟩ | ⟨hDirs, hCollect⟩
  · simp [hCollect, hDirs, Emitted, gaugeWrites]
  · rw [hCollect, emitted_messages, mem_totals_roles, counted_refresh]
    simp [hDirs]

theorem messagesSeries_collect (fs : Fs) (c : SessionCollector) :
    (collect fromStr fs c).1.messagesSeries = c.messagesSeries := by
  rcases collect_cases fromStr fs c with ⟨-, e, hCollect⟩ | ⟨-, hCollect⟩ <;> rw [hCollect]
  rfl

theorem workspace_collect (fs : Fs) (c : SessionCollector) :
    (collect fromStr fs c).1.workspace = c.workspace := by
  rcases collect_cases fromStr fs c with ⟨-, e, hCollect⟩ | ⟨-, hCollect⟩ <;> rw [hCollect]

theorem workspace_watch (c : SessionCollector) (disks : List Fs) :
    (watch fromStr c disks).collector.workspace = c.workspace := by
  induction disks using List.reverseRecOn with
  | nil => rfl
  | append_singleton disks fs ih =>
    rw [watch, Watched.after_snoc]
    exact (workspace_collect fs _).trans ih

theorem silent_iff {c : SessionCollector} (hFiles : c.files = ∅) (disks : List Fs) :
    (∀ role, ¬ Emitted (watch fromStr c disks).log
        ((watch fromStr c disks).collector.messagesSeries role)) ↔
      Run (Watched.tick (collect fromStr)) (NoRoleRead fromStr) (Watched.start c) disks
        (watch fromStr c disks) := by
  induction disks using List.reverseRecOn with
  | nil =>
    refine ⟨fun _ => .nil, fun _ role h => ?_⟩
    obtain ⟨v, hv⟩ := h
    cases hv
  | append_singleton disks fs ih =>
    have hLogged := @logged_watch fromStr c hFiles disks
    rw [watch, Watched.run_after_snoc, ← watch, ← ih, watch, Watched.after_snoc, ← watch]
    dsimp only
    rw [messagesSeries_collect]
    constructor
    · intro hSilent
      refine ⟨fun role hLog => hSilent role (emitted_append.mpr (.inl hLog)), fun role hBrought => ?_⟩
      obtain ⟨p, hp, -⟩ := id hBrought
      have hDirs := dirs_of_mem_present hp
      exact hSilent role (emitted_append.mpr (.inr
        ((emitted_messages_step _ fs role).mpr ⟨hDirs, .inr hBrought⟩)))
    · rintro ⟨hSilent, hNone⟩ role hEmitted
      rcases emitted_append.mp hEmitted with hLog | hOut
      · exact hSilent role hLog
      · obtain ⟨-, hKept | hBrought⟩ := (emitted_messages_step _ fs role).mp hOut
        · obtain ⟨p, -, state, hLookup, hCron, hRole, -⟩ := hKept
          exact hSilent role (hLogged.counted role ⟨p, state, hLookup, hCron, hRole⟩)
        · exact hNone role hBrought

theorem zeroes_iff {c : SessionCollector} (hFiles : c.files = ∅) (disks : List Fs) :
    Watched.Zeroes retire (watch fromStr c disks) ↔
      Run (Watched.tick (collect fromStr)) (NoRoleRead fromStr) (Watched.start c) disks
        (watch fromStr c disks) := by
  rw [← silent_iff hFiles]
  have hLogged := @logged_watch fromStr c hFiles disks
  generalize watch fromStr c disks = w at hLogged ⊢
  constructor
  · intro hZeroes role hEmitted
    have hRetired := hZeroes _ hEmitted
    rw [writes_retire] at hRetired
    simp [messagesSeries, toolCallsSeries, sessionsSeries, cronSessionsSeries,
      Workspace.series_eq_iff] at hRetired
  · intro hSilent s hEmitted
    rw [writes_retire]
    rcases hLogged.known s hEmitted with ⟨role, rfl⟩ | rfl | rfl | rfl
    · exact absurd hEmitted (hSilent role)
    all_goals simp

structure UpToDate (w : Watched SessionCollector) : Prop extends Logged w where
  emitted : ∀ role, Emitted w.log (w.collector.messagesSeries role) →
    Counted w.collector.files role

theorem upToDate_start {c : SessionCollector} (hFiles : c.files = ∅) : UpToDate (Watched.start c) where
  toLogged := logged_start hFiles
  emitted := by
    rintro role ⟨v, hv⟩
    cases hv

theorem upToDate_step {w w' : Watched SessionCollector} {fs : Fs} (h : UpToDate w)
    (hRewrites : Watched.Rewrites (collect fromStr) (Current fromStr) w fs)
    (hStep : Watched.tick (collect fromStr) w fs = some w') : UpToDate w' := by
  cases hStep
  refine ⟨logged_step fs h.toLogged, fun role hEmitted => ?_⟩
  dsimp only at hEmitted ⊢
  rw [messagesSeries_collect] at hEmitted
  rcases collect_cases fromStr fs w.collector with ⟨-, e, hCollect⟩ | ⟨-, hCollect⟩
  · simp only [hCollect, List.append_nil] at hEmitted ⊢
    exact h.emitted role hEmitted
  · have hOut : Emitted (collect fromStr fs w.collector).2.1 (w.collector.messagesSeries role) := by
      rcases emitted_append.mp hEmitted with hLog | hOut
      · exact (hRewrites (by rw [hCollect])).1 _ hLog
      · exact hOut
    rw [emitted_messages_step] at hOut
    rw [hCollect]
    exact (counted_refresh fs w.collector role).mpr hOut.2

theorem rewrites_iff_keepsRoles {w : Watched SessionCollector} (h : UpToDate w) (fs : Fs) :
    Watched.Rewrites (collect fromStr) (Current fromStr) w fs ↔ KeepsRoles fromStr w fs := by
  constructor
  · intro hRewrites hDirs role hRole
    have hOk : (collect fromStr fs w.collector).2.2 = .ok () := by rw [collect_of_dirs hDirs]
    have hOut := (hRewrites hOk).1 _ (h.counted role hRole)
    exact ((emitted_messages_step w fs role).mp hOut).2
  · intro hKeeps hOk
    rcases collect_cases fromStr fs w.collector with ⟨-, e, hCollect⟩ | ⟨hDirs, hCollect⟩
    · rw [hCollect] at hOk
      cases hOk
    · constructor
      · intro s hLog
        rcases h.known s hLog with ⟨role, rfl⟩ | hTotal
        · exact (emitted_messages_step w fs role).mpr ⟨hDirs, hKeeps hDirs role (h.emitted role hLog)⟩
        · rw [hCollect]
          exact emitted_signals.mpr (.inr hTotal)
      · intro s v hv
        rw [hCollect, mem_writes_signals] at hv
        unfold Current
        rw [← sum_totals]
        rcases hv with ⟨role, -, hs, hv⟩ | hv
        · exact .inl ⟨role, hs, hv⟩
        · exact .inr hv

theorem rewrites_run_iff {c : SessionCollector} (hFiles : c.files = ∅) {disks : List Fs}
    {w : Watched SessionCollector} :
    Run (Watched.tick (collect fromStr)) (Watched.Rewrites (collect fromStr) (Current fromStr))
        (Watched.start c) disks w ↔
      Run (Watched.tick (collect fromStr)) (KeepsRoles fromStr) (Watched.start c) disks w :=
  run_congr (upToDate_start hFiles) (fun _ _ _ h hOk hStep => upToDate_step h hOk hStep)
    fun _ fs h => rewrites_iff_keepsRoles h fs

end Runs

end SessionCollector

namespace LearningCollector

variable (fromStr : Json.FromStr)

def Current (fs : Fs) (c : LearningCollector) (s : Series) (v : F64) : Prop :=
  (∃ t ∈ totals (gather fromStr fs c), s = c.series t.1 ∧ v = t.2) ∨
    ∃ name, s = c.skillSeries name ∧
      ((Skill fs c.workspace name ∧ v = 1) ∨ (¬ Skill fs c.workspace name ∧ v = 0))

abbrev watch (c : LearningCollector) (disks : List Fs) : Watched LearningCollector :=
  Watched.after (collect fromStr) c disks

variable {fromStr}

theorem collector_watch (c : LearningCollector) (disks : List Fs) :
    (watch fromStr c disks).collector = c := by
  induction disks using List.reverseRecOn with
  | nil => rfl
  | append_singleton disks fs ih =>
    rw [watch, Watched.after_snoc]
    exact ih

theorem mem_writes_signals {c : LearningCollector} {out : Counts} {s : Series} {v : F64} :
    (s, v) ∈ gaugeWrites (c.signals out) ↔
      (∃ t ∈ totals out, s = c.series t.1 ∧ v = t.2) ∨
        ∃ name ∈ out.skillNames, s = c.skillSeries name ∧ v = 1 := by
  rw [writes_signals, List.mem_append, List.mem_map, List.mem_map]
  simp only [Prod.mk.injEq, eq_comm]

theorem skillSeries_ne_series (c : LearningCollector) (name total : String) :
    c.skillSeries name ≠ c.series total := by
  simp [skillSeries, series, Workspace.series_eq_iff]

theorem emitted_skill {fs : Fs} {c : LearningCollector} {name : String} :
    Emitted (collect fromStr fs c).2.1 (c.skillSeries name) ↔ Skill fs c.workspace name := by
  rw [← @mem_gather_skillNames fromStr]
  constructor
  · rintro ⟨v, hv⟩
    rcases mem_writes_signals.mp hv with ⟨t, -, hEq, -⟩ | ⟨name', hName, hEq, -⟩
    · exact absurd hEq (c.skillSeries_ne_series name t.1)
    · rwa [c.skillSeries_injective hEq]
  · intro hName
    exact ⟨1, mem_writes_signals.mpr (.inr ⟨name, hName, rfl, rfl⟩)⟩

theorem emitted_total {fs : Fs} {c : LearningCollector} {out : Counts} {t : String × ℕ}
    (h : t ∈ totals out) : Emitted (collect fromStr fs c).2.1 (c.series t.1) := by
  -- the names of the totals do not depend on their values
  have hName : t.1 ∈ (totals out).map Prod.fst := List.mem_map.mpr ⟨t, h, rfl⟩
  change t.1 ∈ (totals (gather fromStr fs c)).map Prod.fst at hName
  obtain ⟨t', ht', hName⟩ := List.mem_map.mp hName
  exact ⟨t'.2, mem_writes_signals.mpr (.inl ⟨t', ht', by rw [hName], rfl⟩)⟩

theorem emitted_watch (c : LearningCollector) (disks : List Fs) (s : Series) :
    Emitted (watch fromStr c disks).log s ↔
      ∃ fs ∈ disks, Emitted (collect fromStr fs c).2.1 s := by
  induction disks using List.reverseRecOn with
  | nil =>
    constructor
    · rintro ⟨v, hv⟩
      cases hv
    · rintro ⟨fs, hfs, -⟩
      cases hfs
  | append_singleton disks fs ih =>
    have hCollector := @collector_watch fromStr c disks
    rw [watch, Watched.after_snoc, ← watch, hCollector]
    simp only [emitted_append, ih, List.mem_append, List.mem_singleton, or_and_right, exists_or,
      exists_eq_left]

theorem emitted_collect {fs : Fs} {c : LearningCollector} {s : Series}
    (h : Emitted (collect fromStr fs c).2.1 s) :
    (∃ t ∈ totals (gather fromStr fs c), s = c.series t.1) ∨ ∃ name, s = c.skillSeries name := by
  obtain ⟨v, hv⟩ := h
  rcases mem_writes_signals.mp hv with ⟨t, ht, hs, -⟩ | ⟨name, -, hs, -⟩
  · exact .inl ⟨t, ht, hs⟩
  · exact .inr ⟨name, hs⟩

theorem zeroes_iff (c : LearningCollector) (disks : List Fs) :
    Watched.Zeroes retire (watch fromStr c disks) ↔
      ∀ fs ∈ disks, ∀ name, ¬ Skill fs c.workspace name := by
  unfold Watched.Zeroes
  rw [collector_watch]
  constructor
  · intro hZeroes fs hfs name hSkill
    have hLog := (emitted_watch c disks _).mpr ⟨fs, hfs, (@emitted_skill fromStr _ _ _).mpr hSkill⟩
    exact c.skillSeries_notMem_writes_retire name 0 (hZeroes _ hLog)
  · intro hNone s hEmitted
    obtain ⟨fs, hfs, hOut⟩ := (emitted_watch c disks s).mp hEmitted
    rcases emitted_collect hOut with ⟨t, ht, rfl⟩ | ⟨name, rfl⟩
    · exact c.totals_mem_writes_retire ht
    · exact absurd (emitted_skill.mp hOut) (hNone fs hfs name)

theorem rewrites_iff (c : LearningCollector) (disks : List Fs) (fs : Fs) :
    Watched.Rewrites (collect fromStr) (Current fromStr) (watch fromStr c disks) fs ↔
      ∀ past ∈ disks, ∀ name, Skill past c.workspace name → Skill fs c.workspace name := by
  unfold Watched.Rewrites
  rw [collector_watch]
  constructor
  · intro hRewrites past hPast name hSkill
    have hLog := (emitted_watch c disks _).mpr ⟨past, hPast, (@emitted_skill fromStr _ _ _).mpr hSkill⟩
    exact emitted_skill.mp ((hRewrites rfl).1 _ hLog)
  · intro hKeeps _
    constructor
    · intro s hLog
      obtain ⟨past, hPast, hOut⟩ := (emitted_watch c disks s).mp hLog
      rcases emitted_collect hOut with ⟨t, ht, rfl⟩ | ⟨name, rfl⟩
      · exact emitted_total ht
      · exact emitted_skill.mpr (hKeeps past hPast name (emitted_skill.mp hOut))
    · intro s v hv
      rcases mem_writes_signals.mp hv with hTotal | ⟨name, hName, hs, hv⟩
      · exact .inl hTotal
      · exact .inr ⟨name, hs, .inl ⟨mem_gather_skillNames.mp hName, hv⟩⟩

theorem rewrites_run_iff (c : LearningCollector) (disks : List Fs) :
    Run (Watched.tick (collect fromStr)) (Watched.Rewrites (collect fromStr) (Current fromStr))
        (Watched.start c) disks (watch fromStr c disks) ↔
      disks.Pairwise fun past fs => ∀ name, Skill past c.workspace name → Skill fs c.workspace name := by
  induction disks using List.reverseRecOn with
  | nil => exact ⟨fun _ => .nil, fun _ => .nil⟩
  | append_singleton disks fs ih =>
    rw [watch, Watched.run_after_snoc, ← watch, ih, rewrites_iff, List.pairwise_append]
    simp

end LearningCollector

/-- Retirement zeroes every series of a run exactly where no role was read and no skill was found. -/
theorem retirement_zeroes_iff (fromStr : Json.FromStr) (w : Workspace) (source : String)
    (interval : Duration) (disks : List Fs) :
    (Watched.Zeroes SessionCollector.retire
        (SessionCollector.watch fromStr (.new w source interval) disks) ↔
      Run (Watched.tick (SessionCollector.collect fromStr)) (SessionCollector.NoRoleRead fromStr)
        (Watched.start (.new w source interval)) disks
        (SessionCollector.watch fromStr (.new w source interval) disks)) ∧
    (Watched.Zeroes LearningCollector.retire
        (LearningCollector.watch fromStr (.new w source interval) disks) ↔
      ∀ fs ∈ disks, ∀ name, ¬ LearningCollector.Skill fs w name) :=
  ⟨SessionCollector.zeroes_iff rfl disks, LearningCollector.zeroes_iff _ disks⟩

def oneUserMessage : Fs := (sampleDisk [("a.jsonl", OsString.ofStr (roleLine "user" ++ "\n"))]).fs

theorem retirement_leaves_a_role :
    ¬ Watched.Zeroes SessionCollector.retire
      (SessionCollector.watch sampleFromStr sampleCollector [oneUserMessage]) := by
  intro h
  have hZero := h (sampleCollector.messagesSeries "user") (by decide)
  revert hZero
  decide

/-- Every tick rewrites every series exactly where roles stay on record and skills stay on disk. -/
theorem series_stay_current_iff (fromStr : Json.FromStr) (w : Workspace) (source : String)
    (interval : Duration) (disks : List Fs) :
    (∀ t, Run (Watched.tick (SessionCollector.collect fromStr))
        (Watched.Rewrites (SessionCollector.collect fromStr) (SessionCollector.Current fromStr))
        (Watched.start (.new w source interval)) disks t ↔
      Run (Watched.tick (SessionCollector.collect fromStr)) (SessionCollector.KeepsRoles fromStr)
        (Watched.start (.new w source interval)) disks t) ∧
    (Run (Watched.tick (LearningCollector.collect fromStr))
        (Watched.Rewrites (LearningCollector.collect fromStr) (LearningCollector.Current fromStr))
        (Watched.start (.new w source interval)) disks
        (LearningCollector.watch fromStr (.new w source interval) disks) ↔
      disks.Pairwise fun past fs => ∀ name, LearningCollector.Skill past w name →
        LearningCollector.Skill fs w name) :=
  ⟨fun _ => SessionCollector.rewrites_run_iff rfl, LearningCollector.rewrites_run_iff _ disks⟩

theorem a_rotated_role_falls_silent :
    ¬ Run (Watched.tick (SessionCollector.collect sampleFromStr))
      (Watched.Rewrites (SessionCollector.collect sampleFromStr)
        (SessionCollector.Current sampleFromStr))
      (Watched.start sampleCollector) ([oneUserMessage] ++ [(sampleDisk []).fs])
      (SessionCollector.watch sampleFromStr sampleCollector
        ([oneUserMessage] ++ [(sampleDisk []).fs])) := by
  intro h
  obtain ⟨-, hRewrites⟩ := (Watched.run_after_snoc _ _ _ _).mp h
  have hOut := (hRewrites rfl).1 (sampleCollector.messagesSeries "user") (by decide)
  revert hOut
  decide

end HarnessSphere
