import HarnessSphere.Composition.Shown
import HarnessSphere.Runtime.Succession

/-! # A workspace that comes back

When a workspace comes back, its sources get new tasks under the old names. As long as removals are
patient, what the backend shows under such a name is what the youngest task found: the zeroes of its
predecessors, and all else they said, came before.
-/

namespace HarnessSphere

open Machine

namespace Watcher

variable {batchSize : Nat} {w w' : Watcher} {e : WatcherEvent} {i j : Nat} {t u : Task}

def patient (w : Watcher) : WatcherEvent → Bool
  | .process e => w.process.patient e
  | .drain _ => true

def nameOf (w : Watcher) (i : Nat) : Option String :=
  (w.process.supervisor.tasks[i]?).map fun t => t.desc.name

/-- Under one name the younger tasks speak after the older ones. -/
def SpokeInTurn (w : Watcher) : Prop :=
  w.writers.Pairwise fun i j => w.nameOf i = w.nameOf j → i ≤ j

theorem sink_of_finished (h : t.finished) : t.sink = none := by
  unfold Task.finished at h
  split at h
  · rename_i ending hPoint
    rw [Task.sink, hPoint]
  · cases h

theorem nameOf_of_step (hStep : w.step e = some w') (hTask : w.process.supervisor.tasks[i]? = some t) :
    w'.nameOf i = w.nameOf i := by
  obtain ⟨t', hTask', hDesc⟩ := task_of_step hStep hTask
  rw [nameOf, nameOf, hTask, hTask', Option.map_some, Option.map_some, hDesc]

theorem spokeInTurn_of_step (hCoupled : Coupled batchSize w) (hOrderly : w.process.Orderly)
    (hStep : w.step e = some w') (h : SpokeInTurn w) : SpokeInTurn w' := by
  have hKnown {k : Nat} (hk : k ∈ w.writers) : w'.nameOf k = w.nameOf k :=
    nameOf_of_step hStep (List.getElem?_eq_getElem (hCoupled.known k hk))
  have hOld : w.writers.Pairwise fun i j => w'.nameOf i = w'.nameOf j → i ≤ j :=
    h.imp_of_mem fun hi hj hTurn => by rwa [hKnown hi, hKnown hj]
  obtain ⟨e', p, rfl, hAct, rfl⟩ | ⟨e', p, rfl, -, rfl⟩ := step_cases hStep
  · obtain ⟨k, signal, t, rfl, hTask, hSink, hHear⟩ | ⟨-, hHear⟩ := hCoupled.hear hAct
    · have hWriters : ((w.hear (.task k (.emitted signal))).settle p).writers = w.writers ++ [k] := by
        rw [hHear]
        rfl
      rw [SpokeInTurn, hWriters]
      refine List.pairwise_append.mpr ⟨hOld, List.pairwise_singleton _ _, fun a ha b hb hName => ?_⟩
      obtain rfl := List.mem_singleton.mp hb
      by_contra hYounger
      -- the speaker would be older than one that has spoken, and has not ended
      have hLt := hCoupled.known a ha
      rw [hKnown ha, nameOf_of_step hStep hTask, nameOf, nameOf, hTask,
        List.getElem?_eq_getElem hLt, Option.map_some, Option.map_some, Option.some.injEq] at hName
      obtain hFinished | hNever := hOrderly.turns b a t _ (Nat.lt_of_not_le hYounger) hTask
        (List.getElem?_eq_getElem hLt) hName.symm
      · rw [sink_of_finished hFinished] at hSink
        cases hSink
      · exact hNever
    · have hWriters : ((w.hear e').settle p).writers = w.writers := by
        rw [hHear]
        rfl
      rw [SpokeInTurn, hWriters]
      exact hOld
  · exact hOld

theorem spokeInTurn_of_run {criticalThreshold : UInt32} {boot : List SourceDescriptor} {capacity : Nat}
    {events : List WatcherEvent}
    (hRun : Run step (fun w e => w.patient e) (new criticalThreshold boot capacity batchSize) events w) :
    SpokeInTurn w := by
  refine (hRun.invariant (I := fun w => Coupled batchSize w ∧ w.process.Orderly ∧ SpokeInTurn w)
    ⟨coupled_new criticalThreshold boot capacity batchSize, Process.orderly_new criticalThreshold boot,
      .nil⟩ ?_).2.2
  rintro w e w' ⟨hCoupled, hOrderly, hTurn⟩ hPatient hStep
  refine ⟨coupled_of_step hCoupled hStep, ?_, spokeInTurn_of_step hCoupled hOrderly hStep hTurn⟩
  obtain ⟨e', p, rfl, hAct, rfl⟩ | ⟨e', p, rfl, -, rfl⟩ := step_cases hStep
  · exact hOrderly.act hAct hPatient
  · exact hOrderly

section Writers

/-- What was exported, with the task of each emission. -/
def exportedPairs (w : Watcher) : List (Emission × Nat) :=
  ((w.pipeline.emissions.zip w.writers).filter fun x => x.1.accepted).take
    w.pipeline.batches.flatten.length

/-- What of the emissions of task `i` was exported. -/
def exportedBy (w : Watcher) (i : Nat) : List Emission :=
  (w.exportedPairs.filter fun x => x.2 = i).map Prod.fst

theorem Coupled.exported_pairs (h : Coupled batchSize w) :
    w.exported = w.exportedPairs.map Prod.fst := by
  have hEmissions : w.pipeline.emissions = (w.pipeline.emissions.zip w.writers).map Prod.fst :=
    (List.map_fst_zip h.writers.ge).symm
  rw [exported, exportedPairs, List.map_take]
  conv_lhs => rw [hEmissions, List.filter_map]
  rfl

theorem mem_zip_of_exported {x : Emission × Nat} (hx : x ∈ w.exportedPairs) :
    x ∈ w.pipeline.emissions.zip w.writers := (List.mem_filter.mp (List.mem_of_mem_take hx)).1

/-- An emission bears the name of its task. -/
theorem Coupled.name_of_pair (h : Coupled batchSize w) {x : Emission × Nat}
    (hx : x ∈ w.pipeline.emissions.zip w.writers) : w.nameOf x.2 = some x.1.source.name := by
  have hTask := List.getElem?_eq_getElem (h.known x.2 (List.of_mem_zip hx).2)
  have hOwn : x.1 ∈ w.emissionsOf x.2 :=
    List.mem_map.mpr ⟨x, List.mem_filter.mpr ⟨hx, decide_eq_true rfl⟩, rfl⟩
  rw [nameOf, hTask, Option.map_some, (h.told x.2 _ hTask).source x.1 hOwn]

theorem SpokeInTurn.pairs (hTurn : SpokeInTurn w) (h : Coupled batchSize w) (name : String) :
    (w.exportedPairs.filter fun x => x.1.source.name = name).Pairwise fun x y => x.2 ≤ y.2 := by
  have hZip : (w.pipeline.emissions.zip w.writers).Pairwise fun x y =>
      w.nameOf x.2 = w.nameOf y.2 → x.2 ≤ y.2 := by
    have hWriters : ((w.pipeline.emissions.zip w.writers).map Prod.snd).Pairwise fun i j =>
        w.nameOf i = w.nameOf j → i ≤ j := by
      rw [List.map_snd_zip h.writers.le]
      exact hTurn
    exact List.pairwise_map.mp hWriters
  have hPairs : w.exportedPairs.Pairwise fun x y => w.nameOf x.2 = w.nameOf y.2 → x.2 ≤ y.2 :=
    hZip.sublist ((List.take_sublist _ _).trans List.filter_sublist)
  refine List.pairwise_filter.mpr (hPairs.imp_of_mem fun hx hy hInTurn hxName hyName => hInTurn ?_)
  rw [h.name_of_pair (mem_zip_of_exported hx), h.name_of_pair (mem_zip_of_exported hy),
    of_decide_eq_true hxName, of_decide_eq_true hyName]

end Writers

theorem written_of_mem {m : Metric} {signals : List Signal} (hNone : written m signals = [])
    {signal : Signal} (hSignal : signal ∈ signals) : written m [signal] = [] := by
  obtain ⟨before, after, rfl⟩ := List.append_of_mem hSignal
  rw [written_append, written_cons] at hNone
  exact (List.append_eq_nil_iff.mp (List.append_eq_nil_iff.mp hNone).2).1

theorem map_concat_written (m : Metric) (front : List (Emission × Nat)) (last : Emission × Nat) :
    written m (((front ++ [last]).map Prod.fst).map Emission.stamped) =
      written m ((front.map Prod.fst).map Emission.stamped) ++ written m [last.1.stamped] := by
  rw [List.map_append, List.map_append, written_append]
  rfl

/-- Where the tasks spoke in turn, the last value is one of the youngest that wrote any. -/
theorem last_written {m : Metric} {pairs : List (Emission × Nat)}
    (hSorted : pairs.Pairwise fun x y => x.2 ≤ y.2)
    (hNone : ∀ x ∈ pairs, written m [x.1.stamped] ≠ [] → x.2 ≤ j)
    (hSome : ∃ x ∈ pairs, x.2 = j ∧ written m [x.1.stamped] ≠ []) :
    (written m ((pairs.map Prod.fst).map Emission.stamped)).getLast? =
      (written m (((pairs.filter fun x => x.2 = j).map Prod.fst).map Emission.stamped)).getLast? := by
  induction pairs using List.reverseRecOn with
  | nil =>
    obtain ⟨x, hx, -⟩ := hSome
    cases hx
  | append_singleton front last ih =>
    obtain ⟨hFront, -, hBefore⟩ := List.pairwise_append.mp hSorted
    have hLast := List.mem_append_right front (List.mem_singleton_self last)
    by_cases hSilent : written m [last.1.stamped] = []
    · have hRest := ih hFront (fun x hx => hNone x (List.mem_append_left _ hx)) (by
        obtain ⟨x, hx, hj, hWrites⟩ := hSome
        obtain hOld | hNew := List.mem_append.mp hx
        · exact ⟨x, hOld, hj, hWrites⟩
        · obtain rfl := List.mem_singleton.mp hNew
          exact absurd hSilent hWrites)
      rw [map_concat_written, hSilent, List.append_nil, hRest, List.filter_append, List.map_append,
        List.map_append, written_append]
      by_cases hOwn : last.2 = j
      · simp [hOwn, hSilent]
      · simp [hOwn, written]
    · have hOwn : last.2 = j := by
        obtain ⟨x, hx, hj, -⟩ := hSome
        refine le_antisymm (hNone last hLast hSilent) ?_
        obtain hOld | hNew := List.mem_append.mp hx
        · exact hj ▸ hBefore x hOld last (List.mem_singleton_self last)
        · obtain rfl := List.mem_singleton.mp hNew
          exact hj.ge
      rw [List.filter_append, List.filter_singleton, decide_eq_true hOwn, cond_true, map_concat_written,
        map_concat_written, List.getLast?_append_of_ne_nil _ hSilent,
        List.getLast?_append_of_ne_nil _ hSilent]

/-- A source may go and come back under its name as often as it likes: what the backend shows of a gauge
(or an UpDownCounter) is the last value exported of the youngest task of the name that has had one exported. -/
theorem a_returning_source_is_shown_anew {σ : Type*} (sdk : Sdk σ) (hSdk : sdk.Documented)
    (clients : Clients) (criticalThreshold : UInt32) (boot : List SourceDescriptor)
    (capacity batchSize : Nat) (events : List WatcherEvent) (w : Watcher)
    (hRun : Run step ofSources (new criticalThreshold boot capacity batchSize) events w)
    (hPatient : Run step (fun w e => w.patient e) (new criticalThreshold boot capacity batchSize) events w)
    (j : Nat) (x : Emission) (hx : x ∈ w.exportedBy j) (m : Metric) (hm : x.stamped = .metric m)
    (hAgg : Aggregation.ofKind m.kind = some .lastValue)
    (hYoungest : ∀ k, j < k → w.nameOf k = w.nameOf j →
      written m ((w.exportedBy k).map Emission.stamped) = []) :
    ((OtlpExporter.new sdk).exportAll sdk clients w.pipeline.batches).held sdk m =
      (written m ((w.exportedBy j).map Emission.stamped)).getLast? := by
  obtain ⟨hCoupled, hSourced⟩ := sourced_of_run hRun
  have hTurn := spokeInTurn_of_run hPatient
  obtain ⟨⟨x, j⟩, hPair, rfl⟩ := List.mem_map.mp hx
  obtain ⟨hExported, hOwn⟩ := List.mem_filter.mp hPair
  obtain rfl := of_decide_eq_true hOwn
  have hName := hCoupled.name_of_pair (mem_zip_of_exported hExported)
  have hEmitted : x ∈ w.pipeline.emissions := (List.of_mem_zip (mem_zip_of_exported hExported)).1
  set pairs := w.exportedPairs.filter fun y => y.1.source.name = x.source.name with hPairs
  have hMem {y : Emission × Nat} : y ∈ pairs ↔ y ∈ w.exportedPairs ∧ w.nameOf y.2 = w.nameOf j := by
    rw [hPairs, List.mem_filter, decide_eq_true_eq]
    refine and_congr_right fun hy => ?_
    rw [hName, hCoupled.name_of_pair (mem_zip_of_exported hy), Option.some.injEq]
  have hOf (k : Nat) (hk : w.nameOf k = w.nameOf j) :
      (pairs.filter fun y => y.2 = k).map Prod.fst = w.exportedBy k := by
    rw [hPairs, List.filter_filter, exportedBy]
    refine congrArg (List.map Prod.fst) (List.filter_congr fun y hy => ?_)
    by_cases hyk : y.2 = k
    · have hNamed := (List.mem_filter.mp (hMem.mpr ⟨hy, hyk ▸ hk⟩)).2
      simp only [hyk, hNamed, decide_true, Bool.and_true]
    · simp only [hyk, decide_false, Bool.false_and]
  have hAll : (w.exported.filter fun y => y.source.name = x.source.name) = pairs.map Prod.fst := by
    rw [hCoupled.exported_pairs, List.filter_map]
    rfl
  rw [held_of_name hSdk clients hCoupled hSourced hEmitted hm hAgg, Aggregation.lastValue_result, hAll,
    last_written (hTurn.pairs hCoupled x.source.name) ?_ ?_, hOf j rfl]
  · intro y hy hWrites
    by_contra hYounger
    obtain ⟨hy', hSame⟩ := hMem.mp hy
    have hBy : y.1 ∈ w.exportedBy y.2 :=
      List.mem_map.mpr ⟨y, List.mem_filter.mpr ⟨hy', decide_eq_true rfl⟩, rfl⟩
    exact hWrites (written_of_mem (hYoungest y.2 (Nat.lt_of_not_le hYounger) hSame)
      (List.mem_map_of_mem hBy))
  · refine ⟨(x, j), hMem.mpr ⟨hExported, rfl⟩, rfl, ?_⟩
    rw [hm]
    simp [written]

section Sample

open ContainerCollector (sampleSdk sampleSdk_documented sampleClients)

/-- The session is removed before it has collected anything. -/
def firstLife : List WatcherEvent :=
  [.process (.command (.add quickSession.descriptor)), .process (.polled 0)] ++
    ofTask [.probed (quickSession.probe idleWorld)] ++
    [.process (.command (.remove quickSession.descriptor.name))] ++
    ofTask ([.stopSeen quickSession.retire] ++ quickSession.retire.map .emitted ++ [.retired]) ++
    [.process (.yielded 0), .process .joined]

def secondLife : List WatcherEvent :=
  [.process (.command (.add quickSession.descriptor)), .process (.polled 1)] ++
    ((.probed (quickSession.probe startedWorld) :: quickSession.tick startedWorld).map fun e =>
      .process (.task 1 e))

def bothLives : List WatcherEvent :=
  firstLife ++ secondLife ++ List.replicate 6 (.drain .received) ++ [.drain .flushTick]

def afterBoth : Watcher := after step (new 3 [] 8 512) bothLives

theorem played_afterBoth : Played bothLives afterBoth := by
  have hLength : afterBoth.process.supervisor.tasks.length = 2 := rfl
  have hStopped := (SignalSource.Plays.start (s := quickSession).probed idleWorld).stopped
  have hRetired := hStopped.terminal.terminal.terminal.retired
  have hFirst : quickSession.Plays [] (bothLives.filterMap (WatcherEvent.own 0)) .gone := hRetired
  have hSecond : quickSession.Plays [startedWorld] (bothLives.filterMap (WatcherEvent.own 1))
      (.idle (quickSession.after [startedWorld])) :=
    (SignalSource.Plays.start.probed startedWorld).tick startedWorld
  intro i t hTask
  have hLt := (List.getElem?_eq_some_iff.mp hTask).1
  obtain rfl | rfl : i = 0 ∨ i = 1 := by omega
  · cases hTask
    exact ⟨quickSession, .session _ _ _, rfl, _, _, hFirst⟩
  · cases hTask
    exact ⟨quickSession, .session _ _ _, rfl, _, _, hSecond⟩

theorem a_session_comes_back :
    ((OtlpExporter.new sampleSdk).exportAll sampleSdk sampleClients afterBoth.pipeline.batches).held
      sampleSdk ((sampleCollector.tag (.now "harnesssphere.harness.sessions" .gauge 1)).stamp
        .harness) = some 1 := by
  have hLength : afterBoth.process.supervisor.tasks.length = 2 := rfl
  have hRun : Run step Any (new 3 [] 8 512) bothLives afterBoth := run_after rfl
  refine a_returning_source_is_shown_anew sampleSdk sampleSdk_documented sampleClients 3 [] 8 512
    bothLives afterBoth (run_ofSources hRun played_afterBoth) (run_after_guarded rfl) 1 _
    (List.mem_of_getElem? (i := 1) rfl) _ rfl rfl ?_
  intro k hYounger hName
  have hNone : afterBoth.nameOf k = none := by
    rw [nameOf, List.getElem?_eq_none (by omega), Option.map_none]
  rw [hNone] at hName
  cases hName

end Sample

end Watcher

end HarnessSphere
