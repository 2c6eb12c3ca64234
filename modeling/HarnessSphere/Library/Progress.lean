import HarnessSphere.Library.Machine

/-! # Simulation and progress

A map of states carries runs of one machine to runs of another where each step does. A rank that every
step lowers bounds the length of a run, and where there always is such a step short of a goal, some
run ends in the goal.
-/

namespace HarnessSphere.Machine

variable {S T L M : Type*} {step : S → L → Option S} {ok : S → L → Prop}

theorem Run.forall_labels {P : L → Prop} {s t : S} {ls : List L} (r : Run step ok s ls t)
    (h : ∀ a l, ok a l → P l) : ∀ l ∈ ls, P l := by
  induction r with
  | nil => simp
  | snoc r hOk _ ih =>
    intro l hl
    obtain hl | hl := List.mem_append.mp hl
    · exact ih l hl
    · rw [List.mem_singleton.mp hl]
      exact h _ _ hOk

section Simulation

variable {view : S → T} {stepT : T → M → Option T} {okT : T → M → Prop} {label : L → Option M}

/-- A step is one of the other machine, or changes nothing the other machine sees. -/
theorem Run.simulate {s t : S} {ls : List L} (r : Run step ok s ls t)
    (hSome : ∀ a l b m, ok a l → step a l = some b → label l = some m →
      okT (view a) m ∧ stepT (view a) m = some (view b))
    (hNone : ∀ a l b, ok a l → step a l = some b → label l = none → view b = view a) :
    Run stepT okT (view s) (ls.filterMap label) (view t) := by
  induction r with
  | nil => exact .nil
  | @snoc a b ls l r hOk hStep ih =>
    rw [List.filterMap_append]
    cases hLabel : label l with
    | none =>
      rw [hNone a l b hOk hStep hLabel]
      simpa [hLabel] using ih
    | some m =>
      obtain ⟨hOkT, hStepT⟩ := hSome a l b m hOk hStep hLabel
      simpa [hLabel] using ih.snoc hOkT hStepT

/-- A step is a run of the other machine, which may be of any length. -/
theorem Run.simulate_reaches {I : S → Prop} {s t : S} {ls : List L} (r : Run step ok s ls t)
    (hInit : I s) (hStep : ∀ a l b, I a → ok a l → step a l = some b →
      I b ∧ Reaches stepT (view a) (view b)) : Reaches stepT (view s) (view t) := by
  have hBoth : I t ∧ Reaches stepT (view s) (view t) := by
    induction r with
    | nil => exact ⟨hInit, .refl _⟩
    | snoc r hOk h ih =>
      obtain ⟨hKeep, hOther⟩ := hStep _ _ _ ih.1 hOk h
      exact ⟨hKeep, ih.2.trans hOther⟩
  exact hBoth.2

end Simulation

section Rank

variable {I Goal : S → Prop} {rank : S → Nat}

/-- Where the marked steps lower the rank and no step raises it, a run has no more of them than its rank
goes down. -/
theorem Run.countP_add_rank_le {mark : L → Bool} {s t : S} {ls : List L} (r : Run step ok s ls t)
    (hInit : I s) (hStep : ∀ a l b, I a → ok a l → step a l = some b →
      I b ∧ rank b + (if mark l then 1 else 0) ≤ rank a) : ls.countP mark + rank t ≤ rank s := by
  have hKept : I t ∧ ls.countP mark + rank t ≤ rank s := by
    induction r with
    | nil => exact ⟨hInit, by simp⟩
    | snoc r hOk h ih =>
      obtain ⟨hKeep, hLower⟩ := hStep _ _ _ ih.1 hOk h
      refine ⟨hKeep, ?_⟩
      rw [List.countP_append, List.countP_singleton]
      omega
  exact hKept.2

/-- A run is no longer than its rank goes down. -/
theorem Run.length_add_rank_le {s t : S} {ls : List L} (r : Run step ok s ls t) (hInit : I s)
    (hStep : ∀ a l b, I a → ok a l → step a l = some b → I b ∧ rank b < rank a) :
    ls.length + rank t ≤ rank s := by
  have hCount : ls.countP (fun _ => true) + rank t ≤ rank s :=
    r.countP_add_rank_le hInit fun a l b hKeep hOk h => hStep a l b hKeep hOk h
  rwa [List.countP_true] at hCount

/-- Short of the goal there is a step, and none can be taken for ever. -/
theorem exists_run_to (s : S) (hInit : I s)
    (hStep : ∀ a, I a → ¬ Goal a → ∃ l b, ok a l ∧ step a l = some b ∧ I b ∧ rank b < rank a) :
    ∃ ls t, Run step ok s ls t ∧ I t ∧ Goal t ∧ ls.length ≤ rank s := by
  by_cases hGoal : Goal s
  · exact ⟨[], s, .nil, hInit, hGoal, Nat.zero_le _⟩
  · obtain ⟨l, b, hOk, hTake, hKeep, hLower⟩ := hStep s hInit hGoal
    obtain ⟨ls, t, r, hEnd, hThere, hLength⟩ := exists_run_to b hKeep hStep
    refine ⟨l :: ls, t, run_cons_iff.mpr ⟨b, hOk, hTake, r⟩, hEnd, hThere, ?_⟩
    rw [List.length_cons]
    omega
  termination_by rank s

end Rank

end HarnessSphere.Machine
