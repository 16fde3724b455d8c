import Mathlib.Data.List.DropRight
import Mathlib.Data.List.Infix

/-!
This module contains logs that are cut when they grow too long, and how much of all that was ever
appended such a log still holds.
-/

namespace Retention

variable {α : Type} {cap drop : Nat}

/--
Appends to a log. When that makes it longer than `cap`, its oldest `drop` entries go.
-/
def push (cap drop : Nat) (log : List α) (a : α) : List α :=
  let log := log ++ [a]
  if cap < log.length then log.drop drop else log

/--
What a log holds of all entries, however often it has been cut.
-/
structure Retains (cap drop : Nat) (log all : List α) : Prop where
  suffix : log <:+ all
  length_le : log.length ≤ cap
  kept : log = all ∨ cap + 1 ≤ log.length + drop

theorem Retains.nil : Retains cap drop ([] : List α) [] where
  suffix := List.suffix_rfl
  length_le := Nat.zero_le _
  kept := .inl rfl

theorem Retains.push {log all : List α} (hdrop : 0 < drop) (h : Retains cap drop log all) (a : α) :
    Retains cap drop (push cap drop log a) (all ++ [a]) := by
  have hsuffix : log ++ [a] <:+ all ++ [a] := List.suffix_append_inj_of_length_eq rfl |>.mpr ⟨h.suffix, rfl⟩
  have hlength : (log ++ [a]).length = log.length + 1 := by simp
  unfold Retention.push
  dsimp only
  split
  . next hcut =>
    have := h.length_le
    refine ⟨(List.drop_suffix _ _).trans hsuffix, ?_, .inr ?_⟩
    . rw [List.length_drop]
      omega
    . rw [List.length_drop]
      omega
  . next hcut =>
    refine ⟨hsuffix, by omega, ?_⟩
    rcases h.kept with rfl | hkept
    . exact .inl rfl
    . right
      omega

theorem rtake_min (l : List α) (n : Nat) : l.rtake (min n l.length) = l.rtake n := by
  rw [List.rtake, List.rtake]
  congr 1
  omega

theorem rtake_of_suffix {log all : List α} (h : log <:+ all) {n : Nat} (hn : n ≤ log.length) :
    log.rtake n = all.rtake n := by
  obtain ⟨old, rfl⟩ := h
  have hlength : (old ++ log).length - n = old.length + (log.length - n) := by
    rw [List.length_append]
    omega
  calc
    log.rtake n
    _ = (old ++ log).drop (old.length + (log.length - n)) := by rw [List.drop_length_add_append, List.rtake]
    _ = (old ++ log).rtake n := by rw [List.rtake, hlength]

/--
The newest entries can be read off the log, as long as a cut leaves that many.
-/
theorem Retains.rtake {log all : List α} (h : Retains cap drop log all) {n : Nat}
    (hn : n + drop ≤ cap + 1) : log.rtake n = all.rtake n := by
  rcases h.kept with rfl | hkept
  . rfl
  . exact rtake_of_suffix h.suffix (by omega)

end Retention
