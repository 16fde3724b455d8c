import Mathlib.Data.List.Basic
import Mathlib.Logic.Function.Basic
import Mathlib.Order.Basic

/-!
This module contains boxes that are handed out as raw pointers: a pointer is good from the moment when its
box was given away until it is taken back, and no pointer is ever given out twice. An owner that keeps at
most one pointer at a time uses no bad one, as long as it forgets a pointer that it gives back.
-/

structure Boxes (β : Type) where
  content : Nat → Option β
  next : Nat

namespace Boxes

variable {β : Type}

def empty : Boxes β where
  content _ := none
  next := 0

/--
`Box::into_raw`
-/
def intoRaw (boxes : Boxes β) (value : β) : Nat × Boxes β :=
  (boxes.next,
    { content := Function.update boxes.content boxes.next (some value), next := boxes.next + 1 })

/--
What the pointer points to. Using one that is not good is undefined behaviour.
-/
def deref (boxes : Boxes β) (ptr : Nat) : Option β := boxes.content ptr

/--
`Box::from_raw`, and the box is dropped.
-/
def fromRaw (boxes : Boxes β) (ptr : Nat) : Option (β × Boxes β) :=
  (boxes.deref ptr).map fun value =>
    (value, { boxes with content := Function.update boxes.content ptr none })

def Live (boxes : Boxes β) (ptr : Nat) : Prop := (boxes.deref ptr).isSome = true

/--
The pointers that have not been given out are not good.
-/
def Bounded (boxes : Boxes β) : Prop := ∀ ptr value, boxes.deref ptr = some value → ptr < boxes.next

theorem deref_empty (ptr : Nat) : (empty : Boxes β).deref ptr = none := rfl

theorem bounded_empty : (empty : Boxes β).Bounded := by
  intro ptr value h
  cases h

theorem deref_intoRaw (boxes : Boxes β) (value : β) (ptr : Nat)
    : (boxes.intoRaw value).2.deref ptr
        =
      if ptr = boxes.next then some value else boxes.deref ptr := by
  apply Function.update_apply

theorem Bounded.intoRaw {boxes : Boxes β} (h : boxes.Bounded) (value : β) :
    (boxes.intoRaw value).2.Bounded := by
  intro ptr value' hptr
  rw [deref_intoRaw] at hptr
  split at hptr
  . next heq =>
    subst heq
    exact Nat.lt_succ_self _
  . exact Nat.lt_succ_of_lt (h ptr value' hptr)

theorem fromRaw_of_deref {boxes : Boxes β} {ptr : Nat} {value : β} (h : boxes.deref ptr = some value)
    : boxes.fromRaw ptr
        =
      some (value, { boxes with content := Function.update boxes.content ptr none }) := by
  rw [fromRaw, h]
  rfl

theorem deref_fromRaw {boxes boxes' : Boxes β} {ptr : Nat} {value : β}
    (h : boxes.fromRaw ptr = some (value, boxes')) (ptr' : Nat)
    : boxes'.deref ptr' = if ptr' = ptr then none else boxes.deref ptr' := by
  obtain ⟨value', -, heq⟩ := Option.map_eq_some_iff.mp h
  obtain ⟨-, rfl⟩ := Prod.mk.inj heq
  apply Function.update_apply

theorem Bounded.fromRaw {boxes boxes' : Boxes β} {ptr : Nat} {value : β} (h : boxes.Bounded)
    (hfrom : boxes.fromRaw ptr = some (value, boxes')) : boxes'.Bounded := by
  obtain ⟨value', -, heq⟩ := Option.map_eq_some_iff.mp hfrom
  obtain ⟨-, rfl⟩ := Prod.mk.inj heq
  intro ptr' value'' hptr'
  have hderef := deref_fromRaw hfrom ptr'
  rw [hptr'] at hderef
  split at hderef
  . cases hderef
  . exact h ptr' value'' hderef.symm

/-! ### Owners -/

/--
The boxes as one owner has them: it holds `handle`, and has lost the pointers in `lost`.
-/
structure Owns (boxes : Boxes β) (handle : Option Nat) (lost : List Nat) : Prop where
  bounded : boxes.Bounded
  live_iff : ∀ ptr, boxes.Live ptr ↔ handle = some ptr ∨ ptr ∈ lost
  not_lost : ∀ ptr, handle = some ptr → ptr ∉ lost

variable {boxes boxes' : Boxes β} {handle : Option Nat} {lost : List Nat} {ptr : Nat} {value : β}

theorem live_empty (ptr : Nat) : ¬ (empty : Boxes β).Live ptr := by
  simp [Live, deref_empty]

theorem owns_empty : (empty : Boxes β).Owns none [] where
  bounded := bounded_empty
  live_iff ptr := by simp [live_empty]
  not_lost ptr h := by cases h

theorem live_intoRaw (boxes : Boxes β) (value : β) (ptr : Nat) :
    (boxes.intoRaw value).2.Live ptr ↔ ptr = boxes.next ∨ boxes.Live ptr := by
  rw [Live, deref_intoRaw]
  split
  . next heq => simp [heq]
  . next hne => simp [hne, Live]

theorem live_fromRaw (h : boxes.fromRaw ptr = some (value, boxes')) (ptr' : Nat) :
    boxes'.Live ptr' ↔ ptr' ≠ ptr ∧ boxes.Live ptr' := by
  rw [Live, deref_fromRaw h]
  split
  . next heq => simp [heq]
  . next hne => simp [hne, Live]

theorem Bounded.not_live_next (h : boxes.Bounded) : ¬ boxes.Live boxes.next := by
  intro hlive
  obtain ⟨value, hvalue⟩ := Option.isSome_iff_exists.mp hlive
  exact Nat.lt_irrefl _ (h _ _ hvalue)

theorem Owns.deref (h : boxes.Owns (some ptr) lost) : ∃ value, boxes.deref ptr = some value := by
  have hlive := (h.live_iff ptr).mpr (.inl rfl)
  exact Option.isSome_iff_exists.mp hlive

/--
A new box takes the place of the one held before, which is lost.
-/
theorem Owns.intoRaw (h : boxes.Owns handle lost) (value : β) :
    (boxes.intoRaw value).2.Owns (some (boxes.intoRaw value).1) (lost ++ handle.toList) where
  bounded := h.bounded.intoRaw value
  live_iff ptr := by
    rw [live_intoRaw, h.live_iff, List.mem_append, Option.mem_toList, Option.some.injEq,
      or_comm (a := handle = some ptr)]
    exact or_congr_left eq_comm
  not_lost ptr hptr := by
    obtain rfl := Option.some.inj hptr
    intro hmem
    apply h.bounded.not_live_next
    rw [h.live_iff]
    rcases List.mem_append.mp hmem with hmem | hmem
    . exact .inr hmem
    . exact .inl (Option.mem_toList.mp hmem)

theorem Owns.forget (h : boxes.Owns handle lost) : boxes.Owns none (lost ++ handle.toList) where
  bounded := h.bounded
  live_iff ptr := by
    rw [h.live_iff, List.mem_append, Option.mem_toList, or_comm]
    simp
  not_lost ptr hptr := by cases hptr

theorem Owns.fromRaw (h : boxes.Owns (some ptr) lost) (hfrom : boxes.fromRaw ptr = some (value, boxes')) :
    boxes'.Owns none lost where
  bounded := h.bounded.fromRaw hfrom
  live_iff ptr' := by
    rw [live_fromRaw hfrom, h.live_iff, Option.some.injEq]
    constructor
    . rintro ⟨hne, rfl | hmem⟩
      . contradiction
      . exact .inr hmem
    . rintro (hnone | hmem)
      . cases hnone
      . refine ⟨?_, .inr hmem⟩
        rintro rfl
        exact h.not_lost ptr' rfl hmem
  not_lost ptr hptr := by cases hptr

end Boxes
