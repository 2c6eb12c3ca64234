import Mathlib.Algebra.BigOperators.Group.List.Basic
import Mathlib.Data.List.DropRight

/-! # Terminated records in an append-only text

A text over any alphabet is cut after each terminator. Weights of the pieces, in any commutative
monoid, add up along the cut, so a reader that consumes complete pieces only and remembers where it
stopped accounts for every piece once, however the text was split between its readings.
-/

namespace HarnessSphere.Lines

variable {α β M : Type*} (nl : α)

def Ends (l : List α) : Prop := l = [] ∨ ∃ m, l = m ++ [nl]

theorem Ends.append {nl : α} {l m : List α} (hl : Ends nl l) (hm : Ends nl m) : Ends nl (l ++ m) := by
  obtain rfl | ⟨k, rfl⟩ := hm
  · simpa using hl
  · exact .inr ⟨l ++ k, by simp⟩

variable [DecidableEq α]

/-- The pieces of a text, each with its terminator; only the last one may lack it. -/
def splitInclusive : List α → List (List α)
  | [] => []
  | a :: l =>
    if a = nl then [a] :: splitInclusive l
    else match splitInclusive l with
      | [] => [[a]]
      | s :: ss => (a :: s) :: ss

/-- The text up to and including its first terminator. -/
def firstLine : List α → List α
  | [] => []
  | a :: l => if a = nl then [a] else a :: firstLine l

/-- The text up to and including its last terminator. -/
def complete (l : List α) : List α := l.rdropWhile (· ≠ nl)

variable {nl}

@[simp] theorem splitInclusive_nil : splitInclusive nl [] = [] := rfl

theorem splitInclusive_terminator (l : List α) :
    splitInclusive nl (nl :: l) = [nl] :: splitInclusive nl l := by
  simp [splitInclusive]

theorem flatten_splitInclusive (nl : α) (l : List α) : (splitInclusive nl l).flatten = l := by
  induction l with
  | nil => rfl
  | cons a l ih =>
    rw [splitInclusive]
    split
    · simp [ih]
    · split
      · rename_i h
        simpa [h] using ih
      · rename_i s ss h
        simpa [h] using ih

theorem splitInclusive_append {l : List α} (h : Ends nl l) (m : List α) :
    splitInclusive nl (l ++ m) = splitInclusive nl l ++ splitInclusive nl m := by
  obtain rfl | ⟨k, rfl⟩ := h
  · rfl
  · induction k with
    | nil => simp [splitInclusive]
    | cons a k ih =>
      simp only [List.cons_append, splitInclusive]
      rw [ih]
      split
      · rfl
      · cases hk : splitInclusive nl (k ++ [nl]) with
        | nil =>
          have hFlat := flatten_splitInclusive nl (k ++ [nl])
          simp [hk] at hFlat
        | cons s ss => rfl

theorem complete_ends (nl : α) (l : List α) : Ends nl (complete nl l) := by
  obtain hNil | hNil := eq_or_ne (complete nl l) []
  · exact .inl hNil
  · have hLast : (complete nl l).getLast hNil = nl := by
      simpa [complete] using List.rdropWhile_last_not (· ≠ nl) l hNil
    have hSplit := (List.dropLast_append_getLast hNil).symm
    rw [hLast] at hSplit
    exact .inr ⟨_, hSplit⟩

theorem complete_split (nl : α) (l : List α) : ∃ tail, l = complete nl l ++ tail ∧ nl ∉ tail := by
  refine ⟨l.rtakeWhile (· ≠ nl), List.rdropWhile_append_rtakeWhile.symm, fun h => ?_⟩
  simpa using List.mem_rtakeWhile_imp h

theorem complete_isPrefix (nl : α) (l : List α) : complete nl l <+: l := List.rdropWhile_prefix _ l

theorem complete_eq {l tail : List α} (hEnds : Ends nl l) (hTail : nl ∉ tail) :
    complete nl (l ++ tail) = l := by
  induction tail using List.reverseRecOn with
  | nil =>
    rw [List.append_nil, complete, List.rdropWhile_eq_self_iff]
    intro hl
    obtain rfl | ⟨m, rfl⟩ := hEnds
    · exact absurd rfl hl
    · simp
  | append_singleton tail a ih =>
    simp only [List.mem_append, List.mem_singleton, not_or] at hTail
    rw [← List.append_assoc, complete, List.rdropWhile_concat_pos _ _ _ (by simpa using Ne.symm hTail.2)]
    exact ih hTail.1

theorem complete_of_ends {l : List α} (h : Ends nl l) : complete nl l = l := by
  simpa using complete_eq h (List.not_mem_nil)

theorem complete_append {l : List α} (h : Ends nl l) (m : List α) :
    complete nl (l ++ m) = l ++ complete nl m := by
  obtain ⟨tail, hm, hTail⟩ := complete_split nl m
  have hEnds := h.append (complete_ends nl m)
  calc complete nl (l ++ m) = complete nl ((l ++ complete nl m) ++ tail) := by
        rw [List.append_assoc, ← hm]
    _ = l ++ complete nl m := complete_eq hEnds hTail

theorem firstLine_split (nl : α) (l : List α) :
    ∃ rest, l = firstLine nl l ++ rest ∧ ((∃ m, firstLine nl l = m ++ [nl]) ∨ rest = []) := by
  induction l with
  | nil => exact ⟨[], rfl, .inr rfl⟩
  | cons a l ih =>
    rw [firstLine]
    split
    · rename_i ha
      exact ⟨l, rfl, .inl ⟨[], by rw [ha]; rfl⟩⟩
    · obtain ⟨rest, hSplit, hEnd⟩ := ih
      refine ⟨rest, by rw [List.cons_append, ← hSplit], hEnd.imp_left ?_⟩
      rintro ⟨m, hm⟩
      exact ⟨a :: m, by rw [hm]; rfl⟩

theorem splitInclusive_free_append {c : List α} (hFree : nl ∉ c) (hNe : c ≠ []) (m : List α) :
    splitInclusive nl (c ++ m) = match splitInclusive nl m with
      | [] => [c]
      | s :: ss => (c ++ s) :: ss := by
  induction c with
  | nil => exact absurd rfl hNe
  | cons b c ih =>
    simp only [List.mem_cons, not_or] at hFree
    rw [List.cons_append, splitInclusive, if_neg (Ne.symm hFree.1)]
    rcases c with _ | ⟨b', c⟩
    · simp only [List.nil_append, List.singleton_append]
    · rw [ih hFree.2 (by simp)]
      cases splitInclusive nl m <;> rfl

theorem splitInclusive_flatMap [DecidableEq β] {nl' : β} {code : α → List β}
    (hNl : code nl = [nl']) (hCode : ∀ a, a ≠ nl → nl' ∉ code a ∧ code a ≠ []) (l : List α) :
    splitInclusive nl' (l.flatMap code) = (splitInclusive nl l).map (List.flatMap code) := by
  induction l with
  | nil => rfl
  | cons a l ih =>
    rw [List.flatMap_cons, splitInclusive]
    split
    · rename_i ha
      rw [ha, hNl, List.singleton_append, splitInclusive_terminator, ih]
      simp [hNl]
    · rename_i ha
      rw [splitInclusive_free_append (hCode a ha).1 (hCode a ha).2, ih]
      cases splitInclusive nl l <;> simp

theorem complete_flatMap [DecidableEq β] {nl' : β} {code : α → List β}
    (hNl : code nl = [nl']) (hCode : ∀ a, a ≠ nl → nl' ∉ code a ∧ code a ≠ []) (l : List α) :
    complete nl' (l.flatMap code) = (complete nl l).flatMap code := by
  obtain ⟨tail, hl, hTail⟩ := complete_split nl l
  have hEnds : Ends nl' ((complete nl l).flatMap code) := by
    obtain h | ⟨m, h⟩ := complete_ends nl l
    · exact .inl (by rw [h]; rfl)
    · exact .inr ⟨m.flatMap code, by rw [h, List.flatMap_append]; simp [hNl]⟩
  have hNot : nl' ∉ tail.flatMap code := by
    intro h
    obtain ⟨a, ha, hMem⟩ := List.mem_flatMap.mp h
    exact (hCode a fun hEq => hTail (hEq ▸ ha)).1 hMem
  calc complete nl' (l.flatMap code) = complete nl' ((complete nl l).flatMap code ++ tail.flatMap code) := by
        rw [← List.flatMap_append, ← hl]
    _ = (complete nl l).flatMap code := complete_eq hEnds hNot

section Weights

variable [AddCommMonoid M] (nl) (weight : List α → M)

/-- The weight of a text: the sum over its pieces. -/
def total (l : List α) : M := ((splitInclusive nl l).map weight).sum

variable {nl weight}

@[simp] theorem total_nil : total nl weight [] = 0 := rfl

theorem total_append {l : List α} (h : Ends nl l) (m : List α) :
    total nl weight (l ++ m) = total nl weight l + total nl weight m := by
  simp [total, splitInclusive_append h]

/-- Behind any text, all but the first line of what follows weighs the same. -/
theorem total_complete_append (l : List α) : ∃ rest : M, ∀ k,
    total nl weight (complete nl (k ++ l)) =
      total nl weight (complete nl (k ++ firstLine nl l)) + rest := by
  obtain ⟨rest, hSplit, hEnd⟩ := firstLine_split nl l
  refine ⟨total nl weight (complete nl rest), fun k => ?_⟩
  conv_lhs => rw [hSplit, ← List.append_assoc]
  obtain ⟨m, hm⟩ | rfl := hEnd
  · have hEnds : Ends nl (k ++ firstLine nl l) := .inr ⟨k ++ m, by rw [hm, List.append_assoc]⟩
    rw [complete_append hEnds, total_append hEnds, complete_of_ends hEnds]
  · rw [List.append_nil]
    exact (add_zero _).symm

/-- Whatever is appended, the complete pieces of before still count. -/
theorem total_complete_grown {content grown : List α} (h : content <+: grown) : ∃ rest : M,
    total nl weight (complete nl grown) = total nl weight (complete nl content) + rest := by
  obtain ⟨tail, hContent, -⟩ := complete_split nl content
  obtain ⟨more, rfl⟩ := h
  refine ⟨total nl weight (complete nl (tail ++ more)), ?_⟩
  conv_lhs => rw [hContent, List.append_assoc]
  rw [complete_append (complete_ends nl content), total_append (complete_ends nl content)]

variable (nl weight)

/-- What a resumable reader has consumed of a content: whole pieces, each counted once. -/
structure Consumed (content : List α) (offset : Nat) (count : M) : Prop where
  bound : offset ≤ content.length
  boundary : Ends nl (content.take offset)
  counted : count = total nl weight (content.take offset)

variable {nl weight}

theorem Consumed.start (content : List α) : Consumed nl weight content 0 0 :=
  ⟨Nat.zero_le _, .inl rfl, rfl⟩

theorem Consumed.extend {content grown : List α} {offset : Nat} {count : M}
    (h : Consumed nl weight content offset count) (hGrown : content <+: grown) :
    Consumed nl weight grown offset count := by
  obtain ⟨more, rfl⟩ := hGrown
  have hTake : (content ++ more).take offset = content.take offset :=
    List.take_append_of_le_length h.bound
  exact ⟨by simpa using h.bound.trans (Nat.le_add_right _ _), by rw [hTake]; exact h.boundary,
    by rw [hTake]; exact h.counted⟩

theorem Consumed.restrict {content : List α} {offset n : Nat} {count : M}
    (h : Consumed nl weight content offset count) (hn : offset ≤ n) :
    Consumed nl weight (content.take n) offset count := by
  have hTake : (content.take n).take offset = content.take offset := by
    rw [List.take_take, Nat.min_eq_left hn]
  have hBound := h.bound
  refine ⟨?_, by rw [hTake]; exact h.boundary, by rw [hTake]; exact h.counted⟩
  rw [List.length_take]
  omega

theorem take_complete (nl : α) (content : List α) (offset : Nat) :
    content.take (offset + (complete nl (content.drop offset)).length) =
      content.take offset ++ complete nl (content.drop offset) := by
  obtain ⟨tail, hDrop, -⟩ := complete_split nl (content.drop offset)
  rw [List.take_add, hDrop]
  congr 1
  rw [← hDrop]
  exact (List.prefix_iff_eq_take.mp (complete_isPrefix nl _)).symm

theorem Consumed.resume {content : List α} {offset : Nat} {count : M}
    (h : Consumed nl weight content offset count) :
    Consumed nl weight content (offset + (complete nl (content.drop offset)).length)
      (count + total nl weight (complete nl (content.drop offset))) := by
  refine ⟨?_, ?_, ?_⟩
  · have hLength := (complete_isPrefix nl (content.drop offset)).length_le
    rw [List.length_drop] at hLength
    have := h.bound
    omega
  · rw [take_complete nl]
    exact h.boundary.append (complete_ends nl _)
  · rw [take_complete nl, total_append h.boundary, h.counted]

theorem Consumed.lacks {content : List α} {offset : Nat} {count : M}
    (h : Consumed nl weight content offset count) :
    total nl weight (complete nl content) = count + total nl weight (complete nl (content.drop offset)) := by
  conv_lhs => rw [← List.take_append_drop offset content]
  rw [complete_append h.boundary, total_append h.boundary, h.counted]

end Weights

end HarnessSphere.Lines
