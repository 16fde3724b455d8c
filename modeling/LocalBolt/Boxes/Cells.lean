import LocalBolt.Boxes.Basic
import Mathlib.Data.Multiset.AddSub
import Mathlib.Data.Multiset.MapFold

/-!
This module contains what is allocated as a collection of cells, pointers with what is behind them. Giving a
box away adds a cell and taking it back removes it; a pointer without a cell is not good.
-/

namespace Boxes

variable {β : Type}

/--
An assignment through the pointer.
-/
def write (boxes : Boxes β) (ptr : Nat) (value : β) : Option (Boxes β) :=
  (boxes.deref ptr).map fun _ => { boxes with content := Function.update boxes.content ptr (some value) }

/--
The boxes that are allocated are those of the cells.
-/
structure Holds (boxes : Boxes β) (cells : Multiset (Nat × β)) : Prop where
  bounded : boxes.Bounded
  deref_iff : ∀ ptr value, boxes.deref ptr = some value ↔ (ptr, value) ∈ cells
  nodup : (cells.map Prod.fst).Nodup

theorem holds_empty : (empty : Boxes β).Holds 0 where
  bounded := bounded_empty
  deref_iff ptr value := by simp [deref_empty]
  nodup := by simp

variable {boxes : Boxes β} {cells : Multiset (Nat × β)} {ptr : Nat} {value : β}

theorem Holds.deref (h : boxes.Holds cells) (hcell : (ptr, value) ∈ cells) : boxes.deref ptr = some value :=
  (h.deref_iff ptr value).mpr hcell

theorem Holds.live_iff (h : boxes.Holds cells) (ptr : Nat) : boxes.Live ptr ↔ ptr ∈ cells.map Prod.fst := by
  rw [Live, Option.isSome_iff_exists, Multiset.mem_map]
  constructor
  . rintro ⟨value, hvalue⟩
    exact ⟨(ptr, value), (h.deref_iff ptr value).mp hvalue, rfl⟩
  . rintro ⟨⟨_, value⟩, hcell, rfl⟩
    exact ⟨value, h.deref hcell⟩

theorem Holds.fst_ne (h : boxes.Holds ({(ptr, value)} + cells)) {cell : Nat × β} (hcell : cell ∈ cells) :
    cell.1 ≠ ptr := by
  have hnodup := h.nodup
  rw [Multiset.map_add, Multiset.map_singleton, Multiset.singleton_add, Multiset.nodup_cons] at hnodup
  have hmem : cell.1 ∈ cells.map Prod.fst := Multiset.mem_map_of_mem Prod.fst hcell
  intro heq
  rw [heq] at hmem
  exact hnodup.1 hmem

theorem Holds.intoRaw (h : boxes.Holds cells) (value : β) :
    (boxes.intoRaw value).2.Holds ({(boxes.next, value)} + cells) where
  bounded := h.bounded.intoRaw value
  deref_iff ptr value' := by
    rw [deref_intoRaw, Multiset.singleton_add, Multiset.mem_cons, Prod.mk.injEq, ← h.deref_iff]
    split
    . next heq =>
      subst heq
      have hnone : boxes.deref boxes.next = none := by
        rw [← Option.not_isSome_iff_eq_none]
        exact h.bounded.not_live_next
      simp [hnone, eq_comm]
    . next hne => simp [hne]
  nodup := by
    rw [Multiset.map_add, Multiset.map_singleton, Multiset.singleton_add, Multiset.nodup_cons]
    refine ⟨?_, h.nodup⟩
    rw [← h.live_iff]
    exact h.bounded.not_live_next

theorem Holds.fromRaw (h : boxes.Holds ({(ptr, value)} + cells))
    : ∃ boxes', boxes.fromRaw ptr = some (value, boxes') ∧ boxes'.Holds cells := by
  have hderef : boxes.deref ptr = some value := h.deref (by simp)
  have hfrom := fromRaw_of_deref hderef
  refine ⟨_, hfrom, h.bounded.fromRaw hfrom, ?_, ?_⟩
  . intro ptr' value'
    rw [deref_fromRaw hfrom]
    constructor
    . intro hvalue'
      split at hvalue'
      . cases hvalue'
      . next hne =>
        have hmem := (h.deref_iff ptr' value').mp hvalue'
        rw [Multiset.singleton_add, Multiset.mem_cons, Prod.mk.injEq] at hmem
        exact hmem.resolve_left fun heq => hne heq.1
    . intro hcell
      rw [if_neg (h.fst_ne hcell)]
      exact h.deref (Multiset.mem_add.mpr (.inr hcell))
  . have hnodup := h.nodup
    rw [Multiset.map_add, Multiset.map_singleton, Multiset.singleton_add] at hnodup
    exact (Multiset.nodup_cons.mp hnodup).2

theorem Holds.write (h : boxes.Holds ({(ptr, value)} + cells)) (value' : β)
    : ∃ boxes', boxes.write ptr value' = some boxes' ∧ boxes'.Holds ({(ptr, value')} + cells) := by
  have hderef : boxes.deref ptr = some value := h.deref (by simp)
  have hlt := h.bounded ptr value hderef
  have hcontent : ∀ ptr', Function.update boxes.content ptr (some value') ptr'
      = if ptr' = ptr then some value' else boxes.deref ptr' := by
    intro ptr'
    apply Function.update_apply
  refine ⟨_, by rw [Boxes.write, hderef]; rfl, ?_, ?_, ?_⟩
  . intro ptr' value'' hvalue
    simp only [Boxes.deref, hcontent] at hvalue
    split at hvalue
    . next heq => rw [heq]; exact hlt
    . exact h.bounded ptr' value'' hvalue
  . intro ptr' value''
    simp only [Boxes.deref, hcontent]
    rw [Multiset.singleton_add, Multiset.mem_cons, Prod.mk.injEq]
    split
    . next heq =>
      subst heq
      constructor
      . intro hvalue
        exact .inl ⟨rfl, (Option.some.inj hvalue).symm⟩
      . rintro (⟨-, rfl⟩ | hcell)
        . rfl
        . exact absurd rfl (h.fst_ne hcell)
    . next hne =>
      have hiff := h.deref_iff ptr' value''
      rw [Multiset.singleton_add, Multiset.mem_cons, Prod.mk.injEq] at hiff
      rw [Boxes.deref] at hiff
      simpa [hne] using hiff
  . have hnodup := h.nodup
    rw [Multiset.map_add, Multiset.map_singleton] at hnodup ⊢
    exact hnodup

end Boxes
