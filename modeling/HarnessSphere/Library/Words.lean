import Mathlib.Data.List.Basic

/-! # Words between separators

A text over any alphabet falls apart into words, the longest runs without a separator. Words and the
gaps between them carry what they are made of, so that a text put together from them is read back.
-/

namespace HarnessSphere.Words

variable {α β : Type*} (sep : α → Bool)

structure Word where
  chars : List α
  nonempty : chars ≠ []
  solid : ∀ a ∈ chars, sep a = false

structure Gap where
  chars : List α
  nonempty : chars ≠ []
  blank : ∀ a ∈ chars, sep a

/-- The words of a text, in order. -/
def split (l : List α) : List (List α) := (l.splitOnP sep).filter (· ≠ [])

variable {sep}

@[simp] theorem split_nil : split sep [] = [] := rfl

theorem split_append_cons {a : α} (ha : sep a) (l m : List α) :
    split sep (l ++ a :: m) = split sep l ++ split sep m := by
  rw [split, List.splitOnP_append_cons l m ha, List.filter_append]
  rfl

theorem split_concat {a : α} (ha : sep a) (l : List α) : split sep (l ++ [a]) = split sep l := by
  rw [split_append_cons ha, split_nil, List.append_nil]

theorem split_gap_append {gap : List α} (hGap : ∀ a ∈ gap, sep a) (l : List α) :
    split sep (gap ++ l) = split sep l := by
  induction gap with
  | nil => rfl
  | cons a gap ih =>
    obtain ⟨hHead, hTail⟩ := List.forall_mem_cons.mp hGap
    rw [List.cons_append, ← List.nil_append (a :: (gap ++ l)), split_append_cons hHead, ih hTail,
      split_nil, List.nil_append]

theorem split_word (w : Word sep) : split sep w.chars = [w.chars] := by
  rw [split, List.splitOnP_eq_singleton w.solid, List.filter_singleton]
  simp [w.nonempty]

theorem split_word_gap (w : Word sep) (gap : Gap sep) (l : List α) :
    split sep (w.chars ++ (gap.chars ++ l)) = w.chars :: split sep l := by
  obtain ⟨a, rest, hGap⟩ := List.exists_cons_of_ne_nil gap.nonempty
  have hBlank := gap.blank
  rw [hGap, List.forall_mem_cons] at hBlank
  rw [hGap, List.cons_append, split_append_cons hBlank.1, split_word, split_gap_append hBlank.2]
  rfl

/-- A word and more words after gaps of any kind are read back one by one. -/
theorem split_flatMap (gap : β → Gap sep) (word : β → Word sep) (w : Word sep) (l : List β) :
    split sep (w.chars ++ l.flatMap fun b => (gap b).chars ++ (word b).chars) =
      w.chars :: l.map fun b => (word b).chars := by
  induction l generalizing w with
  | nil => rw [List.flatMap_nil, List.append_nil, split_word, List.map_nil]
  | cons b l ih => rw [List.flatMap_cons, List.append_assoc, split_word_gap, ih, List.map_cons]

/-- Cut at its first separator, a text falls apart in one way only. -/
theorem cut {a : α} {l l' m m' : List α} (hl : a ∉ l) (hl' : a ∉ l')
    (h : l ++ a :: m = l' ++ a :: m') : l = l' ∧ m = m' := by
  induction l generalizing l' with
  | nil =>
    cases l' with
    | nil => exact ⟨rfl, (List.cons.inj h).2⟩
    | cons b l' => exact absurd (List.cons.inj h).1 (List.ne_of_not_mem_cons hl')
  | cons b l ih =>
    cases l' with
    | nil => exact absurd (List.cons.inj h).1.symm (List.ne_of_not_mem_cons hl)
    | cons b' l' =>
      obtain ⟨rfl, hTail⟩ := List.cons.inj h
      obtain ⟨rfl, hRest⟩ := ih (List.not_mem_of_not_mem_cons hl) (List.not_mem_of_not_mem_cons hl') hTail
      exact ⟨rfl, hRest⟩

end HarnessSphere.Words
