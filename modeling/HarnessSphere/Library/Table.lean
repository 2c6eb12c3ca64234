import Mathlib.Data.List.AList
import Mathlib.Data.Multiset.Count
import Mathlib.Algebra.Order.Group.Multiset
import Mathlib.Algebra.BigOperators.Group.List.Lemmas
import Mathlib.Algebra.BigOperators.Group.Multiset.Basic
import Mathlib.Data.Nat.Cast.Basic

/-! # Tables with one value per key

Association lists without repeated keys stand for hash maps; the order of the entries is one
iteration order, and summing over them is summing over the keys in any order. Counters carry their
positivity, so that they stand for a finite multiset. Tables are filled by folds, and rules say what
a fold adds up and what of it a single key sees.
-/

namespace HarnessSphere

abbrev Table (κ ν : Type*) := AList (fun _ : κ => ν)

/-- Where each step adds its weight, a fold adds the sum of them. -/
theorem foldl_sum {α σ M : Type*} [AddMonoid M] {view : σ → M} {step : σ → α → σ} {weight : α → M}
    (hStep : ∀ s x, view (step s x) = view s + weight x) (xs : List α) (s : σ) :
    view (xs.foldl step s) = view s + (xs.map weight).sum := by
  induction xs generalizing s with
  | nil => simp
  | cons x xs ih => rw [List.foldl_cons, ih, hStep, List.map_cons, List.sum_cons, add_assoc]

/-- Where a state takes in parts one by one as it takes in their total, so does a fold. -/
theorem foldl_act {α σ A : Type*} {act : σ → A → σ} {total : List A → A}
    (hNil : ∀ s, act s (total []) = s)
    (hCons : ∀ s a as, act (act s a) (total as) = act s (total (a :: as)))
    (part : α → A) (xs : List α) (s : σ) :
    xs.foldl (fun s x => act s (part x)) s = act s (total (xs.map part)) := by
  induction xs generalizing s with
  | nil => exact (hNil s).symm
  | cons x xs ih => rw [List.foldl_cons, ih, hCons, List.map_cons]

/-- Where each step touches one key only, a key sees only the steps that are its own. -/
theorem foldl_keyed {α κ β σ : Type*} [DecidableEq κ] {view : σ → κ → β} {step : σ → α → σ}
    {key : α → κ} {upd : β → α → β}
    (hStep : ∀ s x k, view (step s x) k = if key x = k then upd (view s k) x else view s k)
    (xs : List α) (s : σ) (k : κ) :
    view (xs.foldl step s) k = (xs.filter fun x => key x = k).foldl upd (view s k) := by
  induction xs generalizing s with
  | nil => rfl
  | cons x xs ih =>
    rw [List.foldl_cons, ih, hStep]
    by_cases hKey : key x = k <;> simp [hKey]

namespace Table

variable {κ ν M : Type*} [DecidableEq κ]

def retain (keep : κ → Bool) (t : Table κ ν) : Table κ ν :=
  ⟨t.entries.filter fun e => keep e.1, t.nodupKeys.sublist List.filter_sublist⟩

theorem lookup_retain (keep : κ → Bool) (t : Table κ ν) (k : κ) :
    (retain keep t).lookup k = if keep k then t.lookup k else none := by
  ext v
  rw [← Option.mem_def, AList.mem_lookup_iff]
  cases hk : keep k <;> simp [retain, hk, ← AList.mem_lookup_iff]

/-- The value of a key, or nothing where the key is absent, counts in the sum over the entries. -/
theorem sum_entries [AddCommMonoid M] (t : Table κ ν) {keys : List κ} (hKeys : t.keys.Perm keys)
    (f : κ → ν → M) :
    (t.entries.map fun e => f e.1 e.2).sum =
      (keys.map fun k => ((t.lookup k).map (f k)).getD 0).sum := by
  have hValue : t.entries.map (fun e => f e.1 e.2) =
      t.keys.map fun k => ((t.lookup k).map (f k)).getD 0 := by
    rw [AList.keys, List.keys, List.map_map]
    refine List.map_congr_left fun e he => ?_
    have hLookup : t.lookup e.1 = some e.2 := AList.mem_lookup_iff.mpr he
    simp [hLookup]
  rw [hValue]
  exact (hKeys.map _).sum_eq

/-- Taking a key out takes out its entry and no other. -/
theorem entries_perm_erase {t : Table κ ν} {k : κ} {v : ν} (h : t.lookup k = some v) :
    t.entries.Perm (⟨k, v⟩ :: (t.erase k).entries) := by
  have hNew : k ∉ (t.erase k).entries.keys := List.notMem_keys_kerase k t.nodupKeys
  apply List.lookup_ext t.nodupKeys (List.nodupKeys_cons.mpr ⟨hNew, (t.erase k).nodupKeys⟩)
  intro j u
  have hLookup : (t.entries.dlookup j) = List.dlookup j (⟨k, v⟩ :: (t.erase k).entries) := by
    obtain rfl | hj := eq_or_ne j k
    · rw [List.dlookup_cons_eq]
      exact h
    · rw [List.dlookup_cons_ne _ _ hj]
      exact (AList.lookup_erase_ne hj).symm
  rw [hLookup]

def bump (k : κ) (n : Nat) (t : Table κ Nat) : Table κ Nat :=
  t.insert k ((t.lookup k).getD 0 + n)

theorem lookup_bump_self (k : κ) (n : Nat) (t : Table κ Nat) :
    (bump k n t).lookup k = some ((t.lookup k).getD 0 + n) := AList.lookup_insert t

theorem lookup_bump_ne {j k : κ} (h : j ≠ k) (n : Nat) (t : Table κ Nat) :
    (bump k n t).lookup j = t.lookup j := AList.lookup_insert_ne h

theorem lookup_foldl_insert {entries : List (κ × ν)} (hKeys : (entries.map Prod.fst).Nodup)
    (k : κ) (v : ν) :
    (entries.foldl (fun t e => t.insert e.1 e.2) (∅ : Table κ ν)).lookup k = some v ↔
      (k, v) ∈ entries := by
  induction entries using List.reverseRecOn with
  | nil => simp
  | append_singleton entries e ih =>
    rw [List.map_append, List.nodup_append] at hKeys
    obtain ⟨hInit, -, hLast⟩ := hKeys
    rw [List.foldl_append, List.foldl_cons, List.foldl_nil, List.mem_append, List.mem_singleton]
    obtain rfl | hNe := eq_or_ne k e.1
    · have hNew : (e.1, v) ∉ entries := fun h =>
        hLast _ (List.mem_map.mpr ⟨_, h, rfl⟩) e.1 (List.mem_singleton_self _) rfl
      rw [AList.lookup_insert, Option.some.injEq, or_iff_right hNew]
      exact ⟨fun h => h ▸ rfl, fun h => (congrArg Prod.snd h).symm⟩
    · have hOther : (k, v) ≠ e := fun h => hNe (congrArg Prod.fst h)
      rw [AList.lookup_insert_ne hNe, ih hInit, or_iff_left hOther]

end Table

/-- Counters that exist only once they have counted something. -/
structure Counters (κ : Type*) [DecidableEq κ] where
  table : Table κ Nat
  pos : ∀ e ∈ table.entries, 0 < e.2

namespace Counters

variable {κ : Type*} [DecidableEq κ]

instance : EmptyCollection (Counters κ) := ⟨⟨∅, by simp⟩⟩

def bump (k : κ) (n : Nat) (hn : 0 < n) (c : Counters κ) : Counters κ where
  table := Table.bump k n c.table
  pos := by
    intro e he
    have hLookup : (Table.bump k n c.table).lookup e.1 = some e.2 := AList.mem_lookup_iff.mpr he
    obtain hk | hk := eq_or_ne e.1 k
    · rw [hk, Table.lookup_bump_self] at hLookup
      have := Option.some.inj hLookup
      omega
    · rw [Table.lookup_bump_ne hk] at hLookup
      exact c.pos e (AList.mem_lookup_iff.mp hLookup)

def merge (c d : Counters κ) : Counters κ :=
  d.table.entries.attach.foldl (fun acc e => acc.bump e.1.1 e.1.2 (d.pos _ e.2)) c

def bag (c : Counters κ) : Multiset κ :=
  (c.table.entries.map fun e => Multiset.replicate e.2 e.1).sum

theorem count_bag (c : Counters κ) (k : κ) : c.bag.count k = (c.table.lookup k).getD 0 := by
  have hEntries (es : List (Σ _ : κ, Nat)) (hKeys : es.NodupKeys) :
      ((es.map fun e => Multiset.replicate e.2 e.1).sum).count k = (es.dlookup k).getD 0 := by
    induction es with
    | nil => simp
    | cons e es ih =>
      obtain ⟨hHead, hTail⟩ := List.nodupKeys_cons.mp hKeys
      rw [List.map_cons, List.sum_cons, Multiset.count_add, ih hTail]
      obtain hk | hk := eq_or_ne k e.1
      · have hNone : es.dlookup k = none := List.dlookup_eq_none.mpr (hk ▸ hHead)
        obtain ⟨j, n⟩ := e
        subst hk
        simp [hNone]
      · rw [List.dlookup_cons_ne _ _ hk, Multiset.count_replicate,
          if_neg (Ne.symm hk), Nat.zero_add]
  exact hEntries _ c.table.nodupKeys

theorem mem_entries_iff {c : Counters κ} {k : κ} {n : Nat} :
    ⟨k, n⟩ ∈ c.table.entries ↔ 0 < n ∧ n = c.bag.count k := by
  rw [count_bag]
  constructor
  · intro h
    have hLookup : c.table.lookup k = some n := AList.mem_lookup_iff.mpr h
    exact ⟨c.pos _ h, by simp [hLookup]⟩
  · rintro ⟨hPos, rfl⟩
    cases hLookup : c.table.lookup k with
    | none => simp [hLookup] at hPos
    | some m => exact AList.mem_lookup_iff.mp hLookup

/-- Counters that stand for the same bag hold the same entries. -/
theorem entries_perm {c d : Counters κ} (h : c.bag = d.bag) :
    c.table.entries.Perm d.table.entries := by
  apply (List.perm_ext_iff_of_nodup c.table.nodupKeys.nodup d.table.nodupKeys.nodup).mpr
  rintro ⟨k, n⟩
  rw [mem_entries_iff, mem_entries_iff, h]

@[simp] theorem bag_empty : (∅ : Counters κ).bag = 0 := rfl

@[simp] theorem bag_bump (k : κ) (n : Nat) (hn : 0 < n) (c : Counters κ) :
    (c.bump k n hn).bag = c.bag + Multiset.replicate n k := by
  ext j
  rw [Multiset.count_add, count_bag, count_bag, Multiset.count_replicate]
  obtain rfl | hj := eq_or_ne j k
  · simp [bump, Table.lookup_bump_self]
  · simp [bump, Table.lookup_bump_ne hj, Ne.symm hj]

theorem sum_map_bag {M : Type*} [AddCommMonoid M] (f : κ → M) (c : Counters κ) :
    (c.bag.map f).sum = (c.table.entries.map fun e => e.2 • f e.1).sum := by
  rw [bag]
  induction c.table.entries with
  | nil => rfl
  | cons e es ih =>
    rw [List.map_cons, List.sum_cons, Multiset.map_add, Multiset.sum_add, ih, List.map_cons,
      List.sum_cons, Multiset.map_replicate, Multiset.sum_replicate]

/-- Counting is summing over an indicator. -/
theorem sum_indicator {M : Type*} [AddCommMonoidWithOne M] (k : κ) (bag : Multiset κ) :
    (bag.map fun j => if j = k then (1 : M) else 0).sum = bag.count k := by
  induction bag using Multiset.induction_on with
  | empty => simp
  | cons j bag ih =>
    rw [Multiset.map_cons, Multiset.sum_cons, ih, Multiset.count_cons, Nat.cast_add, add_comm]
    simp [eq_comm]

omit [DecidableEq κ] in
theorem mem_sum_bags {bags : List (Multiset κ)} {k : κ} : k ∈ bags.sum ↔ ∃ b ∈ bags, k ∈ b := by
  induction bags with
  | nil => simp
  | cons b bags ih => simp [ih]

theorem bag_merge (c d : Counters κ) : (c.merge d).bag = c.bag + d.bag := by
  have hBump (acc : Counters κ) (e : {e // e ∈ d.table.entries}) :
      (acc.bump e.1.1 e.1.2 (d.pos _ e.2)).bag = acc.bag + Multiset.replicate e.1.2 e.1.1 :=
    bag_bump e.1.1 e.1.2 (d.pos _ e.2) acc
  have hEntries : d.table.entries.attach.map (fun e => Multiset.replicate e.1.2 e.1.1) =
      d.table.entries.map fun e => Multiset.replicate e.2 e.1 :=
    List.attach_map_val (f := fun e : (Σ _ : κ, ℕ) => Multiset.replicate e.2 e.1)
  rw [merge, foldl_sum hBump, hEntries]
  rfl

end Counters

end HarnessSphere
