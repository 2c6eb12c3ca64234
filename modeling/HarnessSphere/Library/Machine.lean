import Mathlib.Data.List.Induction

/-! # Partial step machines and their runs

A machine is a partial function from a state and a label to the next state; nondeterminism is the
choice of the label. A run may carry a condition on every step it takes, so that one rule covers
all runs, the runs of a promptly scheduled system and the runs that avoid a bad branch.
-/

namespace HarnessSphere.Machine

variable {S L : Type*} {step : S → L → Option S} {ok ok' : S → L → Prop}

/-- The states a run from `s` passes through: each step is taken by `step` and meets `ok`. -/
inductive Run (step : S → L → Option S) (ok : S → L → Prop) (s : S) : List L → S → Prop where
  | nil : Run step ok s [] s
  | snoc {t u : S} {ls : List L} {l : L} :
      Run step ok s ls t → ok t l → step t l = some u → Run step ok s (ls ++ [l]) u

def Any (_ : S) (_ : L) : Prop := True

def Reaches (step : S → L → Option S) (s t : S) : Prop := ∃ ls, Run step Any s ls t

def exec (step : S → L → Option S) (s : S) (ls : List L) : Option S :=
  ls.foldl (fun t l => t.bind (step · l)) (some s)

theorem Run.mono (h : ∀ s l, ok s l → ok' s l) {s t : S} {ls : List L}
    (r : Run step ok s ls t) : Run step ok' s ls t := by
  induction r with
  | nil => exact .nil
  | snoc _ hOk hStep ih => exact .snoc ih (h _ _ hOk) hStep

theorem Run.any {s t : S} {ls : List L} (r : Run step ok s ls t) : Run step Any s ls t :=
  r.mono fun _ _ _ => trivial

theorem Run.of_labels {s t : S} {ls : List L} (r : Run step ok s ls t)
    (h : ∀ l ∈ ls, ∀ a, ok' a l) : Run step ok' s ls t := by
  induction r with
  | nil => exact .nil
  | snoc _ _ hStep ih =>
    have hLast := h _ (List.mem_append_right _ (List.mem_singleton_self _))
    exact .snoc (ih fun l hl => h l (List.mem_append_left _ hl)) (hLast _) hStep

theorem Run.reaches {s t : S} {ls : List L} (r : Run step ok s ls t) : Reaches step s t :=
  ⟨ls, r.any⟩

theorem Run.append {s t u : S} {ls ms : List L} (r : Run step ok s ls t)
    (q : Run step ok t ms u) : Run step ok s (ls ++ ms) u := by
  induction q with
  | nil => simpa using r
  | snoc _ hOk hStep ih =>
    rw [← List.append_assoc]
    exact .snoc ih hOk hStep

theorem Run.single {s t : S} {l : L} (hOk : ok s l) (hStep : step s l = some t) :
    Run step ok s [l] t :=
  .snoc .nil hOk hStep

theorem Reaches.refl (s : S) : Reaches step s s := ⟨[], .nil⟩

theorem Reaches.trans {s t u : S} : Reaches step s t → Reaches step t u → Reaches step s u
  | ⟨_, r⟩, ⟨_, q⟩ => ⟨_, r.append q⟩

theorem Reaches.tail {s t u : S} {l : L} (h : Reaches step s t) (hStep : step t l = some u) :
    Reaches step s u := h.trans ⟨[l], .single trivial hStep⟩

/-- The invariant rule for runs whose steps meet a condition. -/
theorem Run.invariant {I : S → Prop} {s t : S} {ls : List L} (r : Run step ok s ls t)
    (hInit : I s) (hStep : ∀ a l b, I a → ok a l → step a l = some b → I b) : I t := by
  induction r with
  | nil => exact hInit
  | snoc _ hOk h ih => exact hStep _ _ _ ih hOk h

theorem run_congr {I : S → Prop} {s t : S} {ls : List L} (hInit : I s)
    (hStep : ∀ a l b, I a → ok a l → step a l = some b → I b)
    (hAgree : ∀ a l, I a → (ok a l ↔ ok' a l)) : Run step ok s ls t ↔ Run step ok' s ls t := by
  constructor
  · intro r
    induction r with
    | nil => exact .nil
    | snoc r hOk h ih => exact .snoc ih ((hAgree _ _ (r.invariant hInit hStep)).mp hOk) h
  · intro r
    induction r with
    | nil => exact .nil
    | snoc _ hOk h ih => exact .snoc ih ((hAgree _ _ (ih.invariant hInit hStep)).mpr hOk) h

theorem Reaches.invariant {I : S → Prop} {s t : S} (h : Reaches step s t) (hInit : I s)
    (hStep : ∀ a l b, I a → step a l = some b → I b) : I t :=
  let ⟨_, r⟩ := h
  r.invariant hInit fun a l b ha _ hb => hStep a l b ha hb

theorem Run.history {I : List L → S → Prop} {s t : S} {ls : List L} (r : Run step ok s ls t)
    (hInit : I [] s)
    (hStep : ∀ ms a l b, I ms a → ok a l → step a l = some b → I (ms ++ [l]) b) : I ls t := by
  induction r with
  | nil => exact hInit
  | snoc _ hOk h ih => exact hStep _ _ _ _ ih hOk h

theorem exec_append (s : S) (ls ms : List L) :
    exec step s (ls ++ ms) = (exec step s ls).bind (exec step · ms) := by
  induction ms using List.reverseRecOn with
  | nil => simp [exec]
  | append_singleton ms m ih =>
    rw [← List.append_assoc]
    simp only [exec, List.foldl_append, List.foldl_cons, List.foldl_nil] at ih ⊢
    rw [ih]
    cases List.foldl (fun t l => t.bind (step · l)) (some s) ls <;> rfl

theorem exec_cons (s : S) (l : L) (ls : List L) :
    exec step s (l :: ls) = (step s l).bind (exec step · ls) :=
  exec_append s [l] ls

theorem run_of_exec {s t : S} {ls : List L} (h : exec step s ls = some t) :
    Run step Any s ls t := by
  induction ls using List.reverseRecOn generalizing t with
  | nil =>
    cases h
    exact .nil
  | append_singleton ls l ih =>
    rw [exec_append] at h
    obtain ⟨m, hm, hl⟩ := Option.bind_eq_some_iff.mp h
    exact .snoc (ih hm) trivial (by simpa [exec] using hl)

theorem Run.exec_eq {s t : S} {ls : List L} (r : Run step ok s ls t) : exec step s ls = some t := by
  induction r with
  | nil => rfl
  | snoc _ _ hStep ih =>
    rw [exec_append, ih]
    simpa [exec] using hStep

/-- The machine that takes only the steps that meet a condition. -/
def guarded (step : S → L → Option S) (ok : S → L → Bool) (s : S) (l : L) : Option S :=
  if ok s l then step s l else none

theorem run_of_exec_guarded {ok : S → L → Bool} {s t : S} {ls : List L}
    (h : exec (guarded step ok) s ls = some t) : Run step (fun s l => ok s l) s ls t := by
  have hRun := run_of_exec h
  induction hRun with
  | nil => exact .nil
  | snoc r _ hStep ih =>
    simp only [guarded, Option.ite_none_right_eq_some] at hStep
    exact .snoc (ih r.exec_eq) hStep.1 hStep.2

/-- The state after a list of labels that the machine takes. -/
def after (step : S → L → Option S) (s : S) (ls : List L) : S := (exec step s ls).getD s

theorem run_after {s : S} {ls : List L} (h : (exec step s ls).isSome) :
    Run step Any s ls (after step s ls) := by
  obtain ⟨t, ht⟩ := Option.isSome_iff_exists.mp h
  rw [after, ht]
  exact run_of_exec ht

theorem run_after_guarded {ok : S → L → Bool} {s : S} {ls : List L}
    (h : (exec (guarded step ok) s ls).isSome) :
    Run step (fun s l => ok s l) s ls (after step s ls) := by
  obtain ⟨t, ht⟩ := Option.isSome_iff_exists.mp h
  have hRun := run_of_exec_guarded ht
  rw [after, hRun.exec_eq]
  exact hRun

theorem Run.unique {s t u : S} {ls : List L} (r : Run step ok s ls t) (q : Run step ok' s ls u) :
    t = u := Option.some.inj (r.exec_eq.symm.trans q.exec_eq)

theorem run_snoc_iff {s u : S} {ls : List L} {l : L} :
    Run step ok s (ls ++ [l]) u ↔ ∃ t, Run step ok s ls t ∧ ok t l ∧ step t l = some u := by
  constructor
  · intro r
    generalize hLabels : ls ++ [l] = labels at r
    cases r with
    | nil => simp at hLabels
    | snoc r hOk hStep =>
      obtain ⟨rfl, hLast⟩ := List.append_inj' hLabels rfl
      obtain rfl := List.singleton_inj.mp hLast
      exact ⟨_, r, hOk, hStep⟩
  · rintro ⟨t, r, hOk, hStep⟩
    exact .snoc r hOk hStep

theorem run_append_iff {s u : S} {ls ms : List L} :
    Run step ok s (ls ++ ms) u ↔ ∃ t, Run step ok s ls t ∧ Run step ok t ms u := by
  constructor
  · intro r
    induction ms using List.reverseRecOn generalizing u with
    | nil => exact ⟨u, by simpa using r, .nil⟩
    | append_singleton ms m ih =>
      rw [← List.append_assoc, run_snoc_iff] at r
      obtain ⟨v, r, hOk, hStep⟩ := r
      obtain ⟨t, hBefore, hAfter⟩ := ih r
      exact ⟨t, hBefore, hAfter.snoc hOk hStep⟩
  · rintro ⟨t, r, q⟩
    exact r.append q

theorem run_cons_iff {s u : S} {l : L} {ls : List L} :
    Run step ok s (l :: ls) u ↔ ∃ t, ok s l ∧ step s l = some t ∧ Run step ok t ls u := by
  rw [← List.singleton_append, run_append_iff]
  constructor
  · rintro ⟨t, r, q⟩
    obtain ⟨s', hNil, hOk, hStep⟩ := run_snoc_iff.mp (show Run step ok s ([] ++ [l]) t from r)
    obtain rfl : s = s' := (show Run step ok s [] s from .nil).unique hNil
    exact ⟨t, hOk, hStep, q⟩
  · rintro ⟨t, hOk, hStep, q⟩
    exact ⟨t, .single hOk hStep, q⟩

end HarnessSphere.Machine
