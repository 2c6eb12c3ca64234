import Mathlib.Data.Finset.Basic
import Mathlib.Data.Finset.Lattice.Lemmas
import Mathlib.Data.Finset.SDiff
import HarnessSphere.Library.Machine

/-! # Strict edits of a finite set

An edit adds an element that is not there yet or removes one that is. A sequence of edits that never
gets stuck is one in which every edit does something; the edits that lead from one set to another can
be put down in any order as long as each is put down once.
-/

namespace HarnessSphere

open Machine

inductive Edit (α : Type*) where
  | add (a : α)
  | remove (a : α)
  deriving DecidableEq, Repr

namespace Edit

variable {α : Type*} [DecidableEq α]

def step (s : Finset α) : Edit α → Option (Finset α)
  | add a => if a ∈ s then none else some (insert a s)
  | remove a => if a ∈ s then some (s.erase a) else none

def elem : Edit α → α
  | add a | remove a => a

theorem step_add_iff {s t : Finset α} {a : α} :
    step s (add a) = some t ↔ a ∉ s ∧ insert a s = t := by
  simp [step]

theorem step_remove_iff {s t : Finset α} {a : α} :
    step s (remove a) = some t ↔ a ∈ s ∧ s.erase a = t := by
  simp [step]

theorem exec_adds {s : Finset α} {added : List α} (hNodup : added.Nodup)
    (hFresh : ∀ a ∈ added, a ∉ s) : exec step s (added.map add) = some (s ∪ added.toFinset) := by
  induction added generalizing s with
  | nil => simp [exec]
  | cons a added ih =>
    obtain ⟨hHead, hTail⟩ := List.nodup_cons.mp hNodup
    have hStep : step s (add a) = some (insert a s) :=
      step_add_iff.mpr ⟨hFresh a List.mem_cons_self, rfl⟩
    rw [List.map_cons, exec_cons, hStep, Option.bind_some, ih hTail, List.toFinset_cons]
    · rw [Finset.insert_union, Finset.union_insert]
    · intro b hb hIn
      rcases Finset.mem_insert.mp hIn with rfl | hOld
      · exact hHead hb
      · exact hFresh b (List.mem_cons_of_mem _ hb) hOld

theorem exec_removes {s : Finset α} {removed : List α} (hNodup : removed.Nodup)
    (hThere : ∀ a ∈ removed, a ∈ s) :
    exec step s (removed.map remove) = some (s \ removed.toFinset) := by
  induction removed generalizing s with
  | nil => simp [exec]
  | cons a removed ih =>
    obtain ⟨hHead, hTail⟩ := List.nodup_cons.mp hNodup
    have hStep : step s (remove a) = some (s.erase a) :=
      step_remove_iff.mpr ⟨hThere a List.mem_cons_self, rfl⟩
    rw [List.map_cons, exec_cons, hStep, Option.bind_some, ih hTail, List.toFinset_cons]
    · rw [Finset.sdiff_insert, Finset.erase_sdiff_comm]
    · intro b hb
      refine Finset.mem_erase.mpr ⟨?_, hThere b (List.mem_cons_of_mem _ hb)⟩
      rintro rfl
      exact hHead hb

/-- Adding what is new and then removing what is gone leads from the one set to the other. -/
theorem exec_reconcile {known current : Finset α} {added removed : List α} (hAdded : added.Nodup)
    (hRemoved : removed.Nodup) (hNew : ∀ a, a ∈ added ↔ a ∈ current ∧ a ∉ known)
    (hGone : ∀ a, a ∈ removed ↔ a ∈ known ∧ a ∉ current) :
    exec step known (added.map add ++ removed.map remove) = some current := by
  rw [exec_append, exec_adds hAdded fun a ha => ((hNew a).mp ha).2, Option.bind_some,
    exec_removes hRemoved]
  · congr 1
    ext a
    simp only [Finset.mem_sdiff, Finset.mem_union, List.mem_toFinset, hNew, hGone]
    tauto
  · intro a ha
    exact Finset.mem_union_left _ ((hGone a).mp ha).1

end Edit

end HarnessSphere
