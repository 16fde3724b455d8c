import LocalBolt.Machine.Basic
import Mathlib.Algebra.BigOperators.Group.List.Basic
import Mathlib.Algebra.Ring.Nat

/-!
This module contains what a machine takes in and gives out along a run: if each step gives out, in turn,
what was taken in and held so far, so does the whole run. What a step costs may be paid from what earlier
ones have left.
-/

namespace Machine

variable {σ α β : Type} {M : Machine σ α}

/--
What comes in first goes out first, and what has not gone out yet is held.
-/
theorem Run.conserves (held : σ → List β) {input output : Transition σ α → List β}
    (hinit : ∀ s, M.init s → held s = [])
    (hstep : ∀ s a s', M.Reachable s → M.step s a s' →
      held s ++ input ⟨s, a, s'⟩ = output ⟨s, a, s'⟩ ++ held s')
    {tr : List (Transition σ α)} {s : σ} (h : M.Run tr s) :
    tr.flatMap input = tr.flatMap output ++ held s := by
  induction h with
  | init h =>
    rw [hinit _ h]
    rfl
  | @step tr s s' a hrun h ih =>
    rw [List.flatMap_append, List.flatMap_append, List.flatMap_singleton, List.flatMap_singleton, ih,
      List.append_assoc, hstep s a s' hrun.reachable h, List.append_assoc]

/--
What comes in first goes out first, if it is not given up before.
-/
theorem Run.conserves_sublist (held : σ → List β) {input output : Transition σ α → List β}
    (hinit : ∀ s, M.init s → held s = [])
    (hstep : ∀ s a s', M.Reachable s → M.step s a s' →
      (output ⟨s, a, s'⟩ ++ held s').Sublist (held s ++ input ⟨s, a, s'⟩))
    {tr : List (Transition σ α)} {s : σ} (h : M.Run tr s) :
    (tr.flatMap output ++ held s).Sublist (tr.flatMap input) := by
  induction h with
  | init h =>
    rw [hinit _ h]
    exact .refl _
  | @step tr s s' a hrun h ih =>
    have hlast := (hstep s a s' hrun.reachable h).append_left (tr.flatMap output)
    rw [← List.append_assoc, ← List.append_assoc] at hlast
    rw [List.flatMap_append, List.flatMap_append, List.flatMap_singleton, List.flatMap_singleton]
    exact hlast.trans (ih.append_right _)

/--
What comes in goes out in whatever order, and what has not gone out yet is held.
-/
theorem Run.conserves_perm (held : σ → List β) {input output : Transition σ α → List β}
    (hinit : ∀ s, M.init s → held s = [])
    (hstep : ∀ s a s', M.Reachable s → M.step s a s' →
      (held s ++ input ⟨s, a, s'⟩).Perm (output ⟨s, a, s'⟩ ++ held s'))
    {tr : List (Transition σ α)} {s : σ} (h : M.Run tr s) :
    (tr.flatMap input).Perm (tr.flatMap output ++ held s) := by
  induction h with
  | init h =>
    rw [hinit _ h]
    exact .refl _
  | @step tr s s' a hrun h ih =>
    have hlast := hstep s a s' hrun.reachable h
    rw [List.flatMap_append, List.flatMap_append, List.flatMap_singleton, List.flatMap_singleton]
    have hin : List.Perm (tr.flatMap input ++ input ⟨s, a, s'⟩)
        (tr.flatMap output ++ (held s ++ input ⟨s, a, s'⟩)) := by
      rw [← List.append_assoc]
      exact ih.append_right _
    rw [List.append_assoc]
    exact hin.trans (hlast.append_left _)

/--
What grows by the same as the output of each step is the output of the run.
-/
theorem Run.accumulates (content : σ → List β) {output : Transition σ α → List β}
    (hinit : ∀ s, M.init s → content s = [])
    (hstep : ∀ s a s', M.Reachable s → M.step s a s' → content s' = content s ++ output ⟨s, a, s'⟩)
    {tr : List (Transition σ α)} {s : σ} (h : M.Run tr s) : content s = tr.flatMap output := by
  induction h with
  | init h => exact hinit _ h
  | @step tr s s' a hrun h ih =>
    rw [hstep s a s' hrun.reachable h, ih, List.flatMap_append, List.flatMap_singleton]

/--
If each step costs no more than it is credited with and what it takes from the potential, a run costs no
more than its credit.
-/
theorem Run.amortized (potential : σ → Nat) {cost credit : Transition σ α → Nat}
    (hinit : ∀ s, M.init s → potential s = 0)
    (hstep : ∀ s a s', M.Reachable s → M.step s a s' →
      cost ⟨s, a, s'⟩ + potential s' ≤ potential s + credit ⟨s, a, s'⟩)
    {tr : List (Transition σ α)} {s : σ} (h : M.Run tr s) :
    (tr.map cost).sum + potential s ≤ (tr.map credit).sum := by
  induction h with
  | init h =>
    rw [hinit _ h]
    exact Nat.le_refl _
  | @step tr s s' a hrun h ih =>
    have hlast := hstep s a s' hrun.reachable h
    simp only [List.map_append, List.sum_append, List.map_singleton, List.sum_singleton]
    omega

end Machine
