import Mathlib.Order.Lattice

/-!
This module contains finite maps as lists of entries in the order of their keys, built by insertion.
-/

namespace LocalBolt

namespace SortedMap

variable {κ β : Type} [LinearOrder κ]

def insert (key : κ) (value : β) : List (κ × β) → List (κ × β)
  | [] => [(key, value)]
  | (k, v) :: d =>
    if key < k then (key, value) :: (k, v) :: d
    else if key = k then (key, value) :: d
    else (k, v) :: insert key value d

def Sorted (d : List (κ × β)) : Prop := d.Pairwise fun p q => p.1 < q.1

theorem forall_mem_insert {P : κ × β → Prop} {key : κ} {value : β} {d : List (κ × β)}
    (hnew : P (key, value)) (hold : ∀ p ∈ d, P p) : ∀ p ∈ insert key value d, P p := by
  induction d with
  | nil =>
    intro p hp
    rw [insert, List.mem_singleton] at hp
    rw [hp]
    exact hnew
  | cons entry d ih =>
    obtain ⟨hentry, hold⟩ := List.forall_mem_cons.mp hold
    unfold insert
    split
    . exact List.forall_mem_cons.mpr ⟨hnew, List.forall_mem_cons.mpr ⟨hentry, hold⟩⟩
    . split
      . exact List.forall_mem_cons.mpr ⟨hnew, hold⟩
      . exact List.forall_mem_cons.mpr ⟨hentry, ih hold⟩

theorem Sorted.insert {d : List (κ × β)} (h : Sorted d) (key : κ) (value : β)
    : Sorted (insert key value d) := by
  induction d with
  | nil => exact List.pairwise_singleton _ _
  | cons entry d ih =>
    obtain ⟨hentry, hd⟩ := List.pairwise_cons.mp h
    unfold SortedMap.insert
    split
    . next hlt =>
      apply List.pairwise_cons.mpr
      refine ⟨?_, h⟩
      exact List.forall_mem_cons.mpr ⟨hlt, fun p hp => lt_trans hlt (hentry p hp)⟩
    . next hlt =>
      split
      . next heq =>
        apply List.pairwise_cons.mpr
        refine ⟨?_, hd⟩
        rw [heq]
        exact hentry
      . next hne =>
        apply List.pairwise_cons.mpr
        refine ⟨forall_mem_insert ?_ hentry, ih hd⟩
        exact lt_of_le_of_ne (not_lt.mp hlt) (Ne.symm hne)

/--
A key that comes after all the others is added at the end.
-/
theorem insert_of_forall_lt {key : κ} {value : β} {d : List (κ × β)} (h : ∀ p ∈ d, p.1 < key)
    : insert key value d = d ++ [(key, value)] := by
  induction d with
  | nil => rfl
  | cons entry d ih =>
    obtain ⟨hentry, hd⟩ := List.forall_mem_cons.mp h
    rw [insert, if_neg hentry.le.not_gt, if_neg hentry.ne', ih hd]
    rfl

variable [BEq κ] [LawfulBEq κ]

theorem lookup_insert (k key : κ) (value : β) (d : List (κ × β))
    : (insert key value d).lookup k = if k = key then some value else d.lookup k := by
  induction d with
  | nil =>
    by_cases h : k = key
    . simp [insert, h]
    . simp [insert, h]
  | cons entry d ih =>
    obtain ⟨k', v'⟩ := entry
    by_cases h : k = key
    . rw [if_pos h] at ih ⊢
      unfold insert
      split
      . simp [h]
      . split
        . simp [h]
        . next hne =>
          have hskip : (k == k') = false := by
            rw [h]
            exact beq_false_of_ne hne
          rw [List.lookup_cons, hskip]
          exact ih
    . rw [if_neg h] at ih ⊢
      have hskip : (k == key) = false := beq_false_of_ne h
      unfold insert
      split
      . rw [List.lookup_cons, hskip]
      . split
        . next heq => rw [← heq, List.lookup_cons, List.lookup_cons, hskip]
        . rw [List.lookup_cons, List.lookup_cons, ih]

end SortedMap

end LocalBolt
