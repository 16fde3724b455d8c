import Mathlib.Data.List.Basic
import Mathlib.Data.List.Induction
import Mathlib.Logic.Function.Basic

/-!
This module contains stores whose cells are overwritten by puts and emptied by drops that name the
value they expect, and what a cell holds in terms of the history of the store.
-/

namespace LastWrite

inductive Op (κ ν : Type) where
  | put (key : κ) (value : ν)
  | drop (key : κ) (value : ν)

section Content

variable {κ ν : Type} [DecidableEq κ] [DecidableEq ν]

def apply (store : κ → Option ν) : Op κ ν → κ → Option ν
  | .put key value => Function.update store key (some value)
  | .drop key value => if store key = some value then Function.update store key none else store

def content (ops : List (Op κ ν)) : κ → Option ν := ops.foldl apply fun _ => none

theorem content_append (ops : List (Op κ ν)) (op : Op κ ν) :
    content (ops ++ [op]) = apply (content ops) op := by
  simp only [content, List.foldl_append, List.foldl_cons, List.foldl_nil]

theorem apply_drop (store : κ → Option ν) (key : κ) (value : ν) (key' : κ)
    : apply store (.drop key value) key'
        =
      if key' = key ∧ store key = some value then none else store key' := by
  simp only [apply]
  by_cases hvalue : store key = some value
  . rw [if_pos hvalue, Function.update_apply]
    simp [hvalue]
  . rw [if_neg hvalue, if_neg]
    simp [hvalue]

end Content

section Holds

variable {κ ν : Type}

/--
The last put of the key has the value, and no later drop names it.
-/
def Holds (ops : List (Op κ ν)) (key : κ) (value : ν) : Prop :=
  ∃ before after, ops = before ++ .put key value :: after
    ∧ (∀ value', .put key value' ∉ after) ∧ .drop key value ∉ after

theorem holds_append_iff (ops : List (Op κ ν)) (op : Op κ ν) (key : κ) (value : ν)
    : Holds (ops ++ [op]) key value
        ↔
      op = .put key value
        ∨ (Holds ops key value ∧ (∀ value', op ≠ .put key value') ∧ op ≠ .drop key value) := by
  constructor
  . rintro ⟨before, after, hops, hputs, hdrops⟩
    rcases List.eq_nil_or_concat after with rfl | ⟨after, last, rfl⟩
    . left
      exact (List.append_inj' hops rfl).2 |> List.singleton_inj.mp
    . right
      rw [List.concat_eq_append, ← List.cons_append, ← List.append_assoc] at hops
      obtain ⟨rfl, hlast⟩ := List.append_inj' hops rfl
      obtain rfl := List.singleton_inj.mp hlast
      simp only [List.concat_eq_append, List.mem_append, List.mem_singleton, not_or] at hputs hdrops
      refine ⟨⟨before, after, rfl, fun v => (hputs v).1, hdrops.1⟩, ?_, Ne.symm hdrops.2⟩
      intro v
      exact Ne.symm (hputs v).2
  . rintro (rfl | ⟨⟨before, after, rfl, hputs, hdrops⟩, hput, hdrop⟩)
    . exact ⟨ops, [], rfl, by simp, by simp⟩
    . refine ⟨before, after ++ [op], by simp, ?_, ?_⟩
      . intro v
        simp only [List.mem_append, List.mem_singleton, not_or]
        exact ⟨hputs v, Ne.symm (hput v)⟩
      . simp only [List.mem_append, List.mem_singleton, not_or]
        exact ⟨hdrops, Ne.symm hdrop⟩

def puts (ops : List (Op κ ν)) : List ν :=
  ops.filterMap fun
    | .put _ value => some value
    | .drop _ _ => none

theorem puts_append (ops ops' : List (Op κ ν)) : puts (ops ++ ops') = puts ops ++ puts ops' := by
  exact List.filterMap_append

theorem mem_puts {ops : List (Op κ ν)} {key : κ} {value : ν} (h : .put key value ∈ ops) :
    value ∈ puts ops := by
  exact List.mem_filterMap.mpr ⟨_, h, rfl⟩

theorem key_eq_of_nodup {ops : List (Op κ ν)} (hnodup : (puts ops).Nodup) {key key' : κ} {value : ν}
    (h : .put key value ∈ ops) (h' : .put key' value ∈ ops) : key = key' := by
  obtain ⟨before, after, rfl⟩ := List.append_of_mem h
  unfold puts at hnodup
  rw [List.filterMap_append, List.filterMap_cons_some (by rfl), List.perm_middle.nodup_iff,
    List.nodup_cons, List.mem_append, not_or] at hnodup
  rcases List.mem_append.mp h' with hbefore | hrest
  . exact absurd (mem_puts hbefore) hnodup.1.1
  . rcases List.mem_cons.mp hrest with heq | hafter
    . exact (Op.put.inj heq).1.symm
    . exact absurd (mem_puts hafter) hnodup.1.2

variable [DecidableEq κ]

def Op.valueAt (key : κ) : Op κ ν → Option ν
  | .put key' value => if key' = key then some value else none
  | .drop _ _ => none

@[simp]
theorem valueAt_put_self (key : κ) (value : ν) : (Op.put key value).valueAt key = some value := by
  simp [Op.valueAt]

theorem valueAt_eq_none_iff {op : Op κ ν} {key : κ} :
    op.valueAt key = none ↔ ∀ value, op ≠ .put key value := by
  cases op <;> simp [Op.valueAt]

def values (ops : List (Op κ ν)) (key : κ) : List ν := ops.filterMap (·.valueAt key)

theorem values_append (ops ops' : List (Op κ ν)) (key : κ) :
    values (ops ++ ops') key = values ops key ++ values ops' key := by
  exact List.filterMap_append

theorem values_put_cons (key : κ) (value : ν) (ops : List (Op κ ν)) :
    values (.put key value :: ops) key = value :: values ops key := by
  exact List.filterMap_cons_some (valueAt_put_self key value)

theorem values_eq_nil_of_no_put {ops : List (Op κ ν)} {key : κ} (h : ∀ value, .put key value ∉ ops) :
    values ops key = [] := by
  unfold values
  rw [List.filterMap_eq_nil_iff]
  intro op hop
  apply valueAt_eq_none_iff.mpr
  rintro value rfl
  exact h value hop

theorem Holds.getLast_values {ops : List (Op κ ν)} {key : κ} {value : ν}
    (h : Holds ops key value) : (values ops key).getLast? = some value := by
  obtain ⟨before, after, rfl, hputs, -⟩ := h
  rw [values_append, values_put_cons, values_eq_nil_of_no_put hputs]
  simp

theorem values_sublist_puts (ops : List (Op κ ν)) (key : κ) :
    (values ops key).Sublist (puts ops) := by
  induction ops with
  | nil => exact .slnil
  | cons op ops ih =>
    unfold values puts at ih ⊢
    rw [List.filterMap_cons, List.filterMap_cons]
    cases op with
    | put key' value =>
      by_cases hkey : key' = key
      . simpa [Op.valueAt, hkey] using ih
      . simpa [Op.valueAt, hkey] using ih.cons value
    | drop => exact ih

/--
A value that was put and then overwritten is not held, unless it is put again.
-/
theorem not_holds_of_overwritten {before between after : List (Op κ ν)} {key : κ} {old new : ν}
    (hputs : (puts (before ++ .put key old :: between ++ .put key new :: after)).Nodup) :
    ¬ Holds (before ++ .put key old :: between ++ .put key new :: after) key old := by
  intro h
  have hnodup := (values_sublist_puts _ key).nodup hputs
  have hlast := h.getLast_values
  rw [values_append, values_put_cons] at hlast hnodup
  have hagain : old ∈ new :: values after key := by
    rw [List.getLast?_append_of_ne_nil _ (by simp)] at hlast
    exact List.mem_of_getLast? hlast
  have hold : old ∈ values (before ++ .put key old :: between) key := by
    rw [values_append, values_put_cons]
    simp
  exact (List.nodup_append.mp hnodup).2.2 _ hold _ hagain rfl

variable [DecidableEq ν]

theorem content_eq_some_iff (ops : List (Op κ ν)) (key : κ) (value : ν) :
    content ops key = some value ↔ Holds ops key value := by
  induction ops using List.reverseRecOn with
  | nil =>
    constructor
    . intro h
      simp [content] at h
    . rintro ⟨before, after, hops, -⟩
      simp at hops
  | append_singleton ops op ih =>
    rw [content_append, holds_append_iff, ← ih]
    cases op with
    | put key' value' =>
      simp only [apply, Function.update_apply]
      split
      . next hkey => simp [hkey]
      . next hkey =>
        have hne : key' ≠ key := fun h => hkey h.symm
        simp [hne]
    | drop key' value' =>
      rw [apply_drop]
      split
      . next hdropped =>
        obtain ⟨rfl, hvalue⟩ := hdropped
        simp only [reduceCtorEq, false_or, false_iff, hvalue, Option.some.injEq, Op.drop.injEq,
          true_and, ne_eq]
        rintro ⟨rfl, -, hdrop⟩
        exact hdrop rfl
      . next hkept =>
        simp only [reduceCtorEq, false_or, ne_eq, not_false_eq_true, implies_true, true_and,
          Op.drop.injEq, not_and, iff_self_and]
        rintro hvalue rfl rfl
        exact hkept ⟨rfl, hvalue⟩

end Holds

end LastWrite
