import HarnessSphere.Composition.Backend

/-! # The calls of a task to its source

A task calls its source to probe it, then for one collection after another, and in the end to retire it.
Between two calls the source stands still. As long as no call panics, what the task does is determined by
what the source finds in the world.
-/

namespace HarnessSphere

open Machine

def CollectOutcome.ofResult : Except CollectError Unit → CollectOutcome
  | .ok () => .ok
  | .error e => .err e

def TaskEvent.said : TaskEvent → Option Signal
  | .emitted signal => some signal
  | _ => none

theorem said_snoc (es : List TaskEvent) {e : TaskEvent} (hSilent : e.said = none) :
    (es ++ [e]).filterMap TaskEvent.said = es.filterMap TaskEvent.said := by
  simp [hSilent]

/-- Steps in which the source is not called. -/
def TaskEvent.passes : TaskEvent → Bool
  | .ticked | .woke | .reported => true
  | _ => false

/-- A source between its calls, or within one that has yet to emit the rest of its signals. -/
inductive Stand where
  | idle (s : SignalSource)
  | collecting (s : SignalSource) (rest : List Signal) (result : Except CollectError Unit)
  | retiring (s : SignalSource) (rest : List Signal)
  | gone

namespace Stand

def rest : Stand → List Signal
  | idle _ | gone => []
  | collecting _ rest _ | retiring _ rest => rest

def retires : Stand → Bool
  | idle _ | collecting _ _ _ => false
  | retiring _ _ | gone => true

end Stand

namespace SignalSource

/-- The steps of a task with its source, which finds one world at each collection. -/
inductive Plays (s : SignalSource) : List World → List TaskEvent → Stand → Prop where
  | start : Plays s [] [] (.idle s)
  | probed {worlds : List World} {es : List TaskEvent} {c : SignalSource} (world : World)
      (h : Plays s worlds es (.idle c)) : Plays s worlds (es ++ [.probed (c.probe world)]) (.idle c)
  | passed {worlds : List World} {es : List TaskEvent} {c : SignalSource} (e : TaskEvent)
      (hPasses : e.passes) (h : Plays s worlds es (.idle c)) : Plays s worlds (es ++ [e]) (.idle c)
  | called {worlds : List World} {es : List TaskEvent} {c : SignalSource} (world : World)
      (h : Plays s worlds es (.idle c)) :
      Plays s (worlds ++ [world]) es
        (.collecting (c.collect world).1 (c.collect world).2.1 (c.collect world).2.2)
  | said {worlds : List World} {es : List TaskEvent} {c : SignalSource} {signal : Signal}
      {rest : List Signal} {result : Except CollectError Unit}
      (h : Plays s worlds es (.collecting c (signal :: rest) result)) :
      Plays s worlds (es ++ [.emitted signal]) (.collecting c rest result)
  | returned {worlds : List World} {es : List TaskEvent} {c : SignalSource}
      {result : Except CollectError Unit} (h : Plays s worlds es (.collecting c [] result)) :
      Plays s worlds (es ++ [.collected (.ofResult result)]) (.idle c)
  | stopped {worlds : List World} {es : List TaskEvent} {c : SignalSource}
      (h : Plays s worlds es (.idle c)) :
      Plays s worlds (es ++ [.stopSeen c.retire]) (.retiring c c.retire)
  | terminal {worlds : List World} {es : List TaskEvent} {c : SignalSource} {signal : Signal}
      {rest : List Signal} (h : Plays s worlds es (.retiring c (signal :: rest))) :
      Plays s worlds (es ++ [.emitted signal]) (.retiring c rest)
  | retired {worlds : List World} {es : List TaskEvent} {c : SignalSource}
      (h : Plays s worlds es (.retiring c [])) : Plays s worlds (es ++ [.retired]) .gone

/-- The steps of a tick that collects. -/
def tick (s : SignalSource) (world : World) : List TaskEvent :=
  [.ticked] ++ (s.collect world).2.1.map .emitted ++ [.collected (.ofResult (s.collect world).2.2)]

/-- What the source is after its collections. -/
def after (s : SignalSource) (worlds : List World) : SignalSource :=
  worlds.foldl (fun s world => (s.collect world).1) s

/-- What each collection emits. -/
def collections : SignalSource → List World → List (List Signal)
  | _, [] => []
  | s, world :: worlds => (s.collect world).2.1 :: (s.collect world).1.collections worlds

variable {s : SignalSource} {worlds : List World} {es : List TaskEvent} {stand : Stand}

theorem Plays.all_said {c : SignalSource} {signals : List Signal} {result : Except CollectError Unit}
    (h : Plays s worlds es (.collecting c signals result)) :
    Plays s worlds (es ++ signals.map .emitted) (.collecting c [] result) := by
  induction signals generalizing es with
  | nil => rwa [List.map_nil, List.append_nil]
  | cons signal signals ih =>
    have hRest := ih h.said
    rwa [List.append_assoc, List.singleton_append] at hRest

theorem Plays.tick {c : SignalSource} (h : Plays s worlds es (.idle c)) (world : World) :
    Plays s (worlds ++ [world]) (es ++ c.tick world) (.idle (c.collect world).1) := by
  have hReturned := ((h.passed .ticked rfl).called world).all_said.returned
  rwa [List.append_assoc, List.append_assoc] at hReturned

theorem after_snoc (s : SignalSource) (worlds : List World) (world : World) :
    s.after (worlds ++ [world]) = ((s.after worlds).collect world).1 := List.foldl_concat _ _ _ _

theorem collections_snoc (s : SignalSource) (worlds : List World) (world : World) :
    s.collections (worlds ++ [world]) =
      s.collections worlds ++ [((s.after worlds).collect world).2.1] := by
  induction worlds generalizing s with
  | nil => rfl
  | cons first worlds ih =>
    rw [List.cons_append, collections, ih, collections, List.cons_append]
    rfl

theorem made_after (hMade : s.Made) (worlds : List World) : (s.after worlds).Made := by
  induction worlds generalizing s with
  | nil => exact hMade
  | cons world worlds ih => exact ih (hMade.collected world)

theorem descriptor_after (s : SignalSource) (worlds : List World) :
    (s.after worlds).descriptor = s.descriptor := by
  induction worlds generalizing s with
  | nil => rfl
  | cons world worlds ih => exact (ih (s.collect world).1).trans (s.descriptor_collect world)

theorem endpointProbe_after {c : EndpointProbeCollector} (h : s.after worlds = endpointProbe c) :
    s = endpointProbe c := by
  induction worlds generalizing s with
  | nil => exact h
  | cons world worlds ih =>
    have hNext := ih (s := (s.collect world).1) h
    cases s with
    | endpointProbe _ => exact hNext
    | _ => cases hNext

/-- The source a stand speaks of. -/
def stands : Stand → Option SignalSource
  | .idle c | .collecting c _ _ | .retiring c _ => some c
  | .gone => none

theorem Plays.source (h : Plays s worlds es stand) {c : SignalSource} (hc : stands stand = some c) :
    c = s.after worlds := by
  induction h generalizing c with
  | start =>
    cases hc
    rfl
  | called world _ ih =>
    cases hc
    rw [after_snoc, ← ih rfl]
  | retired => cases hc
  | _ =>
    cases hc
    apply_assumption
    rfl

/-- What the task has said, and what the call under way has yet to say, is what the collections emit and
then the retirement. -/
theorem Plays.said_eq (h : Plays s worlds es stand) :
    es.filterMap TaskEvent.said ++ stand.rest = (s.collections worlds).flatten ++
      if stand.retires then (s.after worlds).retire else [] := by
  induction h with
  | start => rfl
  | probed world _ ih => rwa [said_snoc _ rfl]
  | returned _ ih | retired _ ih => rwa [said_snoc _ rfl]
  | passed e hPasses _ ih =>
    have hSilent : e.said = none := by cases e <;> first | rfl | cases hPasses
    rwa [said_snoc _ hSilent]
  | called world h ih =>
    rw [collections_snoc, ← h.source rfl]
    simp only [Stand.rest, Stand.retires, Bool.false_eq_true, if_false, List.append_nil] at ih ⊢
    rw [ih, List.flatten_append, List.flatten_singleton]
  | stopped h ih =>
    rw [said_snoc _ rfl, ← h.source rfl]
    simp only [Stand.rest, Stand.retires, Bool.false_eq_true, if_false, List.append_nil] at ih
    rw [ih]
    rfl
  | said _ ih | terminal _ ih =>
    rw [List.filterMap_append, List.append_assoc]
    exact ih

/-- Each collection is one of the source as it was then. -/
theorem exists_of_mem_collections {signals : List Signal} (h : signals ∈ s.collections worlds) :
    ∃ before world, signals = ((s.after before).collect world).2.1 := by
  induction worlds generalizing s with
  | nil => cases h
  | cons world worlds ih =>
    obtain rfl | hLater := List.mem_cons.mp h
    · exact ⟨[], world, rfl⟩
    · obtain ⟨before, world', rfl⟩ := ih hLater
      exact ⟨world :: before, world', rfl⟩

theorem says_of_mem_collections (hMade : s.Made) {signal : Signal}
    (h : signal ∈ (s.collections worlds).flatten) :
    ∃ c : SignalSource, c.Made ∧ c.descriptor = s.descriptor ∧ c.Says signal := by
  obtain ⟨signals, hSignals, hMem⟩ := List.mem_flatten.mp h
  obtain ⟨before, world, rfl⟩ := exists_of_mem_collections hSignals
  exact ⟨_, made_after hMade before, s.descriptor_after before, .inl ⟨world, hMem⟩⟩

theorem Plays.says (h : Plays s worlds es stand) (hMade : s.Made) {signal : Signal}
    (hSaid : .emitted signal ∈ es) :
    ∃ c : SignalSource, c.Made ∧ c.descriptor = s.descriptor ∧ c.Says signal := by
  have hMem : signal ∈ es.filterMap TaskEvent.said := List.mem_filterMap.mpr ⟨_, hSaid, rfl⟩
  have hAll := List.mem_append_left stand.rest hMem
  rw [h.said_eq] at hAll
  obtain hCollected | hRetired := List.mem_append.mp hAll
  · exact says_of_mem_collections hMade hCollected
  · split_ifs at hRetired
    · exact ⟨_, made_after hMade worlds, s.descriptor_after worlds, .inr hRetired⟩
    · cases hRetired

theorem Plays.stops (h : Plays s worlds es stand) (hMade : s.Made) {terminal : List Signal}
    (hStop : .stopSeen terminal ∈ es) :
    ∃ c : SignalSource, c.Made ∧ c.descriptor = s.descriptor ∧ c.retire = terminal := by
  induction h with
  | start => cases hStop
  | called world h ih => exact ih hStop
  | passed e hPasses h ih =>
    obtain hOld | hNew := List.mem_append.mp hStop
    · exact ih hOld
    · obtain rfl := List.mem_singleton.mp hNew
      cases hPasses
  | @stopped worlds es c h ih =>
    obtain hOld | hNew := List.mem_append.mp hStop
    · exact ih hOld
    · obtain rfl := TaskEvent.stopSeen.inj (List.mem_singleton.mp hNew)
      obtain rfl := h.source rfl
      exact ⟨_, made_after hMade worlds, s.descriptor_after worlds, rfl⟩
  | probed world h ih =>
    obtain hOld | hNew := List.mem_append.mp hStop
    · exact ih hOld
    · cases List.mem_singleton.mp hNew
  | said h ih | returned h ih | terminal h ih | retired h ih =>
    obtain hOld | hNew := List.mem_append.mp hStop
    · exact ih hOld
    · cases List.mem_singleton.mp hNew

/-- What a task does, a source of its descriptor does. -/
def Voiced (desc : SourceDescriptor) : TaskEvent → Prop
  | .emitted signal => ∃ c : SignalSource, c.Made ∧ c.descriptor = desc ∧ c.Says signal
  | .stopSeen terminal => ∃ c : SignalSource, c.Made ∧ c.descriptor = desc ∧ c.retire = terminal
  | _ => True

theorem Plays.voiced (h : Plays s worlds es stand) (hMade : s.Made) {e : TaskEvent} (he : e ∈ es) :
    Voiced s.descriptor e := by
  cases e with
  | emitted signal => exact h.says hMade he
  | stopSeen terminal => exact h.stops hMade he
  | _ => trivial

end SignalSource

end HarnessSphere
