import LocalBolt.Machine.Basic
import Mathlib.Data.List.Induction

/-!
This module contains where a fact about the last state of a run comes from: the step of the run that
made it true, and the run that led there.
-/

namespace Machine

variable {σ α : Type} {M : Machine σ α}

/--
`t` is a step of the run `tr`, and `pre` is the run before it.
-/
def At (tr pre : List (Transition σ α)) (t : Transition σ α) : Prop := pre ++ [t] <+: tr

theorem At.cons_of_append {tr pre : List (Transition σ α)} {t u : Transition σ α} (h : At tr pre t) :
    At (tr ++ [u]) pre t :=
  h.trans (List.prefix_append _ _)

theorem At.last (tr : List (Transition σ α)) (t : Transition σ α) : At (tr ++ [t]) tr t :=
  List.prefix_rfl

theorem At.trans {tr pre pre' : List (Transition σ α)} {t u : Transition σ α} (h : At tr pre t)
    (h' : At pre pre' u) : At tr pre' u := by
  have hpre : pre' ++ [u] <+: pre := h'
  have htr : pre <+: tr := (List.prefix_append pre [t]).trans h
  exact hpre.trans htr

theorem At.mem {tr pre : List (Transition σ α)} {t : Transition σ α} (h : At tr pre t) : t ∈ tr :=
  h.subset (by simp)

/--
A step that made `Q` true, in a run that ends with `Q` and did not begin with it.
-/
theorem Run.origin (Q : σ → Prop) (hinit : ∀ s, M.init s → ¬ Q s) {tr : List (Transition σ α)} {s : σ}
    (h : M.Run tr s) (hs : Q s)
    : ∃ pre t, At tr pre t ∧ M.Run pre t.source ∧ M.step t.source t.action t.target
        ∧ ¬ Q t.source ∧ Q t.target := by
  induction h with
  | init h => exact absurd hs (hinit _ h)
  | @step tr s s' a hrun hstep ih =>
    by_cases hQ : Q s
    . obtain ⟨pre, t, hat, ht⟩ := ih hQ
      exact ⟨pre, t, hat.cons_of_append, ht⟩
    . exact ⟨tr, ⟨s, a, s'⟩, At.last tr _, hrun, hstep, hQ, hs⟩

/--
Each step of a run is the last one of a run.
-/
theorem Run.at {tr pre : List (Transition σ α)} {s : σ} {t : Transition σ α} (h : M.Run tr s)
    (ht : At tr pre t) : M.Run pre t.source ∧ M.step t.source t.action t.target := by
  induction h with
  | init =>
    have := ht.length_le
    simp at this
  | @step tr s s' a hrun hstep ih =>
    rcases List.prefix_concat_iff.mp ht with heq | hprefix
    . obtain ⟨rfl, hlast⟩ := List.append_inj' heq rfl
      obtain rfl := List.singleton_inj.mp hlast
      exact ⟨hrun, hstep⟩
    . exact ih hprefix

theorem Run.reachable_source {tr : List (Transition σ α)} {s : σ} {t : Transition σ α} (h : M.Run tr s)
    (ht : t ∈ tr) : M.Reachable t.source := by
  obtain ⟨pre, post, rfl⟩ := List.append_of_mem ht
  refine (h.at (show At _ pre t from ⟨post, ?_⟩)).1.reachable
  rw [List.append_assoc, List.singleton_append]

theorem Run.concat {tr : List (Transition σ α)} {s : σ} {t : Transition σ α} (h : M.Run (tr ++ [t]) s)
    : M.Run tr t.source ∧ M.step t.source t.action t.target ∧ s = t.target := by
  generalize hl : tr ++ [t] = l at h
  cases h with
  | init => simp at hl
  | step hrun hstep =>
    obtain ⟨rfl, hlast⟩ := List.append_inj' hl rfl
    obtain rfl := List.singleton_inj.mp hlast
    exact ⟨hrun, hstep, rfl⟩

/--
What a step has made true and does not hold any more was made false by a step in between.
-/
theorem Run.falsified (Q : σ → Prop) {pre post : List (Transition σ α)} {t : Transition σ α} {s : σ}
    (h : M.Run (pre ++ t :: post) s) (ht : Q t.target) (hs : ¬ Q s)
    : ∃ u ∈ post, M.step u.source u.action u.target ∧ Q u.source ∧ ¬ Q u.target := by
  induction post using List.reverseRecOn generalizing s with
  | nil =>
    obtain ⟨-, -, rfl⟩ := h.concat
    exact absurd ht hs
  | append_singleton post u ih =>
    rw [← List.cons_append, ← List.append_assoc] at h
    obtain ⟨hrun, hstep, rfl⟩ := h.concat
    by_cases hQ : Q u.source
    . exact ⟨u, List.mem_append_right _ (List.mem_singleton_self u), hstep, hQ, hs⟩
    . obtain ⟨v, hv, hfalse⟩ := ih hrun hQ
      exact ⟨v, List.mem_append_left _ hv, hfalse⟩

end Machine
