import Mathlib.Data.List.Basic

/-!
This module contains trust on first use: a log of the names under which keys were accepted, and the
table that remembers each key with the first of its names.
-/

namespace Tofu

variable {ν κ : Type} [DecidableEq κ] {log : List (ν × κ)} {name : ν} {key : κ}

def owner (log : List (ν × κ)) (key : κ) : Option ν :=
  (log.find? fun sighting => sighting.2 = key).map (·.1)

def Changed (log : List (ν × κ)) (name : ν) (key : κ) : Prop :=
  ∃ other, (name, other) ∈ log ∧ other ≠ key

instance [DecidableEq ν] : Decidable (Changed log name key) :=
  decidable_of_iff (∃ sighting ∈ log, sighting.1 = name ∧ sighting.2 ≠ key) <| by
    simp only [Changed, Prod.exists]
    aesop

def Flagged (log : List (ν × κ)) (name : ν) (key : κ) : Prop :=
  ∃ other, owner log other = some name ∧ other ≠ key

theorem mem_of_owner (h : owner log key = some name) : (name, key) ∈ log := by
  unfold owner at h
  obtain ⟨⟨name', key'⟩, hfind, hname⟩ := Option.map_eq_some_iff.mp h
  have hmem := List.mem_of_find?_eq_some hfind
  have hkey : key' = key := by simpa using List.find?_some hfind
  subst hname hkey
  exact hmem

theorem Flagged.changed (h : Flagged log name key) : Changed log name key := by
  obtain ⟨other, howner, hother⟩ := h
  exact ⟨other, mem_of_owner howner, hother⟩

theorem flagged_iff_changed_iff :
    (Flagged log name key ↔ Changed log name key) ↔ (Changed log name key → Flagged log name key) := by
  constructor
  . exact Iff.mpr
  . intro h
    exact ⟨Flagged.changed, h⟩

theorem owner_append_of_some (h : owner log key = some name) (log' : List (ν × κ)) :
    owner (log ++ log') key = some name := by
  unfold owner at h ⊢
  obtain ⟨sighting, hfind, hname⟩ := Option.map_eq_some_iff.mp h
  rw [List.find?_append, hfind, Option.some_or, Option.map_some, hname]

theorem owner_append_self (h : owner log key = none) (name : ν) :
    owner (log ++ [(name, key)]) key = some name := by
  unfold owner at h ⊢
  rw [List.find?_append, Option.map_eq_none_iff.mp h]
  simp

theorem owner_append_ne {other : κ} (h : other ≠ key) (name : ν) :
    owner (log ++ [(name, key)]) other = owner log other := by
  unfold owner
  rw [List.find?_append]
  simp [h.symm]

theorem owner_append (log : List (ν × κ)) (name : ν) (key other : κ)
    : owner (log ++ [(name, key)]) other
        =
      if other = key then some ((owner log key).getD name) else owner log other := by
  split
  . next h =>
    subst h
    cases howner : owner log other with
    | none => exact owner_append_self howner name
    | some name' => exact owner_append_of_some howner _
  . next h => exact owner_append_ne h name

end Tofu
