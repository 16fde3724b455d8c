import Mathlib.Logic.Function.Basic
import Mathlib.Data.List.Basic

/-!
This module contains replicas of a list whose elements have keys: what a reader makes of the updates
that it is sent, against the list itself.
-/

namespace Replica

variable {α κ : Type}

inductive Update (α κ : Type) where
  | replace (all : List α)
  | put (x : α)
  | remove (key : κ)

section

variable [DecidableEq κ] (key : α → κ)

def index (l : List α) : κ → Option α := fun k => l.find? fun x => key x = k

def apply (view : κ → Option α) : Update α κ → κ → Option α
  | .replace all => index key all
  | .put x => Function.update view (key x) (some x)
  | .remove k => Function.update view k none

def replay (updates : List (Update α κ)) : κ → Option α := updates.foldl (apply key) fun _ => none

theorem replay_append (updates : List (Update α κ)) (update : Update α κ) :
    replay key (updates ++ [update]) = apply key (replay key updates) update := by
  simp only [replay, List.foldl_append, List.foldl_cons, List.foldl_nil]

theorem index_filter_ne (l : List α) (k : κ)
    : index key (l.filter fun x => key x ≠ k)
        =
      Function.update (index key l) k none := by
  funext k'
  unfold index
  rw [List.find?_filter]
  by_cases hk : k' = k
  . subst hk
    rw [Function.update_self, List.find?_eq_none]
    intro x _
    simp
  . rw [Function.update_of_ne hk]
    congr 1
    funext x
    by_cases hx : key x = k'
    . simp [hx, hk]
    . simp [hx]

/--
An element takes the place of the one that had its key.
-/
theorem index_replace (l : List α) (x : α)
    : index key ((l.filter fun y => key y ≠ key x) ++ [x])
        =
      Function.update (index key l) (key x) (some x) := by
  have hfilter := index_filter_ne key l (key x)
  funext k
  have hk := congrFun hfilter k
  unfold index at hk ⊢
  rw [List.find?_append, hk]
  by_cases hx : k = key x
  . subst hx
    simp
  . rw [Function.update_of_ne hx, Function.update_of_ne hx]
    simp [Ne.symm hx]

end

end Replica
