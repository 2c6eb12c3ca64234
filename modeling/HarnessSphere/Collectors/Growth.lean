import HarnessSphere.Collectors.Content
import Mathlib.Algebra.Order.Monoid.Prod
import Mathlib.Algebra.Order.BigOperators.Group.List
import Mathlib.Data.Multiset.OrderedMonoid

/-! # Totals over a growing disk

Harnesses append to their transcripts and remove none. As long as they keep to it, the gauges of the
session collector behave as counters do: what a tick writes, each later tick writes again, and no less.
-/

namespace HarnessSphere

namespace SessionCollector

/-- From one tick to a later one no transcript goes, and each grows by appending. -/
structure OnlyGrows (w : Workspace) (fs fs' : Fs) : Prop where
  dirs : w.sessionDirs fs ≠ [] → w.sessionDirs fs' ≠ []
  paths : transcripts fs (w.sessionDirs fs) ⊆ transcripts fs' (w.sessionDirs fs')
  content : GrowsTo w fs fs'

theorem OnlyGrows.trans {w : Workspace} {fs fs' fs'' : Fs} (h : OnlyGrows w fs fs')
    (h' : OnlyGrows w fs' fs'') : OnlyGrows w fs fs'' where
  dirs hDirs := h'.dirs (h.dirs hDirs)
  paths _ hp := h'.paths (h.paths hp)
  content p hp hp' := (h.content p hp (h.paths hp)).trans (h'.content p (h.paths hp) hp')

instance (w : Workspace) : IsTrans Fs (OnlyGrows w) := ⟨fun _ _ _ => OnlyGrows.trans⟩

/-- Each gauge written is written again later, with at least its value. -/
def NoLess (earlier later : List Signal) : Prop :=
  ∀ s v, (s, v) ∈ gaugeWrites earlier → ∃ v', v ≤ v' ∧ (s, v') ∈ gaugeWrites later

instance : IsTrans (List Signal) NoLess where
  trans a b c hab hbc s v hv := by
    obtain ⟨v', hLe, hv'⟩ := hab s v hv
    obtain ⟨v'', hLe', hv''⟩ := hbc s v' hv'
    exact ⟨v'', hLe.trans hLe', hv''⟩

theorem noLess_signals (c : SessionCollector) {t t' : SessionTotals}
    (h : SessionCollector.sum t ≤ SessionCollector.sum t') : NoLess (c.signals t) (c.signals t') := by
  obtain ⟨⟨hRoles, hToolCalls⟩, hSessions, hCron⟩ := h
  intro s v hv
  simp only [mem_writes_signals] at hv ⊢
  obtain ⟨role, hRole, rfl, rfl⟩ | ⟨rfl, rfl⟩ | ⟨rfl, rfl⟩ | ⟨rfl, rfl⟩ := hv
  · refine ⟨_, ?_, .inl ⟨role, Multiset.mem_of_le hRoles hRole, rfl, rfl⟩⟩
    exact_mod_cast Multiset.count_le_of_le role hRoles
  · exact ⟨_, by exact_mod_cast hToolCalls, .inr (.inl ⟨rfl, rfl⟩)⟩
  · exact ⟨_, by exact_mod_cast hSessions, .inr (.inr (.inl ⟨rfl, rfl⟩))⟩
  · exact ⟨_, by exact_mod_cast hCron, .inr (.inr (.inr ⟨rfl, rfl⟩))⟩

theorem share_mono {state state' : FileState} (hCron : state'.cron = state.cron)
    (hTally : state.tally ≤ state'.tally) : share state ≤ share state' := by
  rw [share, share, hCron]
  split_ifs
  · exact le_refl _
  · exact ⟨hTally, le_refl _⟩

section Ticks

variable {fromStr : Json.FromStr}

theorem records_mono {content grown : List UInt8} (hValid : Utf8.Valid content)
    (hValid' : Utf8.Valid grown) (h : content <+: grown) :
    ((completeLines content).map (record fromStr)).sum ≤
      ((completeLines grown).map (record fromStr)).sum := by
  rw [← tallyOf_complete hValid, ← tallyOf_complete hValid', tallyOf, tallyOf]
  have hGrown : ∃ rest,
      Lines.total newline (pieceWeight (record fromStr)) (Lines.complete newline grown) =
        Lines.total newline (pieceWeight (record fromStr)) (Lines.complete newline content) + rest :=
    Lines.total_complete_grown h
  obtain ⟨rest, hRest⟩ := hGrown
  rw [hRest]
  exact le_self_add

variable {past : List Fs} {fs fs' : Fs} {c : SessionCollector}

/-- A transcript that grows adds at least as much to the next tick as to this one. -/
theorem share_grows (h : ReadUp fromStr past c) (hGrows : ∀ old ∈ past, GrowsTo c.workspace old fs)
    (hReadable : ∀ p ∈ c.present fs, Readable fs p)
    (hReadable' : ∀ p ∈ c.present fs', Readable fs' p) (hNext : OnlyGrows c.workspace fs fs')
    {p : Path} (hp : p ∈ c.present fs) :
    ∃ state state', revisit fromStr fs p (c.files.lookup p) = some state ∧
      revisit fromStr fs' p (some state) = some state' ∧ share state ≤ share state' := by
  have hp' := hNext.paths hp
  obtain ⟨state, hState, -, hTally, hSoFar⟩ := revisit_readable h hGrows hp (hReadable p hp)
  -- the file alone, as the next tick finds it on record
  have hUp : ReadUp fromStr [fs] { c with files := (∅ : Table Path FileState).insert p state } := by
    intro q known hLookup
    obtain rfl | hq := eq_or_ne q p
    · rw [AList.lookup_insert] at hLookup
      obtain rfl := Option.some.inj hLookup
      exact ⟨fs, List.mem_singleton_self fs, hp, hSoFar⟩
    · rw [AList.lookup_insert_ne hq] at hLookup
      cases hLookup
  have hGrows' : ∀ old ∈ [fs], GrowsTo c.workspace old fs' := by
    simpa using hNext.content
  obtain ⟨state', hState', hCron', hTally', -⟩ := revisit_readable hUp hGrows' hp' (hReadable' p hp')
  rw [AList.lookup_insert] at hState' hCron'
  refine ⟨state, state', hState, hState', share_mono hCron' ?_⟩
  rw [hTally, hTally']
  exact records_mono (hReadable p hp).valid (hReadable' p hp').valid (hNext.content p hp hp')

theorem sum_grows (h : ReadUp fromStr past c) (hGrows : ∀ old ∈ past, GrowsTo c.workspace old fs)
    (hReadable : ∀ p ∈ c.present fs, Readable fs p)
    (hReadable' : ∀ p ∈ c.present fs', Readable fs' p) (hNext : OnlyGrows c.workspace fs fs') :
    let c' := (collect fromStr fs c).1
    SessionCollector.sum (totals (refresh fromStr fs c.files (c.present fs))) ≤
      SessionCollector.sum (totals (refresh fromStr fs' c'.files (c'.present fs'))) := by
  intro c'
  have hPresent : c'.present fs' = c.present fs' := by rw [present, present, workspace_collect]
  have hMeta {fs : Fs} {p : Path} (hRead : Readable fs p) : (fs.metadata p).isSome := by
    obtain ⟨m, hMetadata, -⟩ := hRead.serves.metadata
    rw [hMetadata]
    rfl
  obtain ⟨listed, hPerm, hSub⟩ := List.subperm_of_subset (c.present_nodup fs) hNext.paths
  rw [sum_totals_of_perm ((keys_refresh_perm _ (c.present_nodup fs) fun p hp =>
      hMeta (hReadable p hp)).trans hPerm.symm), hPresent,
    sum_totals_of_perm (keys_refresh_perm _ (c.present_nodup fs') fun p hp =>
      hMeta (hReadable' p hp))]
  refine le_trans (List.sum_le_sum fun p hp => ?_)
    ((hSub.map _).sum_le_sum fun _ _ => zero_le)
  have hp : p ∈ c.present fs := hPerm.subset hp
  have hp' : p ∈ c.present fs' := hNext.paths hp
  obtain ⟨state, state', hState, hState', hShare⟩ :=
    share_grows h hGrows hReadable hReadable' hNext hp
  rw [lookup_refresh fs _ (c.present_nodup fs), lookup_refresh fs' _ (c.present_nodup fs'), if_pos hp,
    if_pos hp', lookup_collect hp, hState, hState']
  exact hShare

theorem noLess_collect (h : ReadUp fromStr past c)
    (hGrows : ∀ old ∈ past, GrowsTo c.workspace old fs)
    (hReadable : ∀ p ∈ c.present fs, Readable fs p)
    (hReadable' : ∀ p ∈ c.present fs', Readable fs' p) (hNext : OnlyGrows c.workspace fs fs') :
    NoLess (collect fromStr fs c).2.1 (collect fromStr fs' (collect fromStr fs c).1).2.1 := by
  by_cases hDirs : c.workspace.sessionDirs fs = []
  · rw [collect, if_pos hDirs]
    intro s v hv
    cases hv
  · have hSum := sum_grows h hGrows hReadable hReadable' hNext
    have hDirs' : (collect fromStr fs c).1.workspace.sessionDirs fs' ≠ [] := by
      rw [workspace_collect]
      exact hNext.dirs hDirs
    have hSignals : (collect fromStr fs c).1.signals = c.signals := by
      funext t
      simp only [signals, tag, workspace_collect, source_collect]
    rw [collect_of_dirs hDirs', hSignals, collect_of_dirs hDirs]
    rw [collect_of_dirs hDirs] at hSum
    exact noLess_signals c hSum

theorem emissions_grow {past ticks : List Fs} {c : SessionCollector} (h : ReadUp fromStr past c)
    (hReadable : ∀ fs ∈ ticks, ∀ p ∈ c.present fs, Readable fs p)
    (hGrows : (past ++ ticks).Pairwise (OnlyGrows c.workspace)) :
    (emissions fromStr c ticks).IsChain NoLess := by
  induction ticks generalizing past c with
  | nil => exact .nil
  | cons fs ticks ih =>
    have hPast : ∀ old ∈ past, GrowsTo c.workspace old fs := fun old hOld =>
      ((List.pairwise_append.mp hGrows).2.2 old hOld fs List.mem_cons_self).content
    have hHere := hReadable fs List.mem_cons_self
    have hLater : (emissions fromStr (collect fromStr fs c).1 ticks).IsChain NoLess := by
      apply ih (readUp_collect h hPast hHere)
      · intro later hMem
        rw [present, workspace_collect]
        exact hReadable later (List.mem_cons_of_mem fs hMem)
      · rw [workspace_collect, List.append_assoc]
        exact hGrows
    cases ticks with
    | nil => exact .singleton _
    | cons fs' ticks =>
      have hNext : OnlyGrows c.workspace fs fs' :=
        (List.pairwise_cons.mp (List.pairwise_append.mp hGrows).2.1).1 fs' List.mem_cons_self
      exact .cons_cons (noLess_collect h hPast hHere (hReadable fs' (by simp)) hNext) hLater

end Ticks

/-- Over a disk whose transcripts are readable and only grow, no gauge of the session collector falls:
each role, the tool calls, the sessions and the cron sessions are written again by every later tick, at
no smaller value. -/
theorem totals_never_fall (fromStr : Json.FromStr) (w : Workspace) (source : String)
    (interval : Duration) (ticks : List Fs)
    (hReadable : ∀ fs ∈ ticks, ∀ p ∈ transcripts fs (w.sessionDirs fs), Readable fs p)
    (hGrows : ticks.IsChain (OnlyGrows w)) :
    (emissions fromStr (.new w source interval) ticks).Pairwise NoLess := by
  have hUp : ReadUp fromStr [] (.new w source interval) := fun p state hLookup => by cases hLookup
  exact List.isChain_iff_pairwise.mp (emissions_grow hUp hReadable hGrows.pairwise)

theorem a_growing_transcript_counts_up :
    (emissions contentFromStr sampleCollector [said ["hi"], said ["hi", "hi"]]).Pairwise NoLess := by
  have hShort : transcripts (said ["hi"]) (sampleWorkspace.sessionDirs (said ["hi"])) =
    [saidPath] := by decide
  have hLong : transcripts (said ["hi", "hi"]) (sampleWorkspace.sessionDirs (said ["hi", "hi"])) =
    [saidPath] := by decide
  apply totals_never_fall contentFromStr sampleWorkspace "picoclaw" 60
  · simp only [List.forall_mem_cons, hShort, hLong]
    exact ⟨⟨said_readable (by decide), by simp⟩, ⟨said_readable (by decide), by simp⟩, by simp⟩
  · refine .cons_cons ⟨fun _ => by decide, ?_, .of_single hShort (by decide)⟩ (.singleton _)
    rw [hShort, hLong]
    exact List.Subset.refl _

end SessionCollector

end HarnessSphere
