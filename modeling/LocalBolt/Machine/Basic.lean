import Mathlib.Logic.Basic

/-!
This module contains machines (transition systems whose steps carry an action), their reachable
states and their finite runs, and the rules that lift a fact about one step to all reachable states
or to a whole run.
-/

structure Machine (σ α : Type) where
  init : σ → Prop
  step : σ → α → σ → Prop

structure Transition (σ α : Type) where
  source : σ
  action : α
  target : σ

namespace Machine

variable {σ α : Type} {M : Machine σ α}

inductive Reachable (M : Machine σ α) : σ → Prop where
  | init {s : σ} : M.init s → Reachable M s
  | step {s s' : σ} {a : α} : Reachable M s → M.step s a s' → Reachable M s'

/--
`M.Run tr s`: the transitions `tr`, oldest first, lead from an initial state to `s`.
-/
inductive Run (M : Machine σ α) : List (Transition σ α) → σ → Prop where
  | init {s : σ} : M.init s → Run M [] s
  | step {tr : List (Transition σ α)} {s s' : σ} {a : α} :
      Run M tr s → M.step s a s' → Run M (tr ++ [⟨s, a, s'⟩]) s'

/--
`M.Path s tr s'`: the transitions `tr`, oldest first, lead from `s` to `s'`.
-/
inductive Path (M : Machine σ α) : σ → List (Transition σ α) → σ → Prop where
  | nil (s : σ) : Path M s [] s
  | cons {s s' s'' : σ} {a : α} {tr : List (Transition σ α)} :
      M.step s a s' → Path M s' tr s'' → Path M s (⟨s, a, s'⟩ :: tr) s''

theorem Reachable.invariant {I : σ → Prop} (hinit : ∀ s, M.init s → I s)
    (hstep : ∀ s a s', M.Reachable s → I s → M.step s a s' → I s') {s : σ}
    (h : M.Reachable s) : I s := by
  induction h with
  | init h => exact hinit _ h
  | step hs h ih => exact hstep _ _ _ hs ih h

theorem Run.reachable {tr : List (Transition σ α)} {s : σ} (h : M.Run tr s) : M.Reachable s := by
  induction h with
  | init h => exact .init h
  | step _ h ih => exact .step ih h

theorem Reachable.run {s : σ} (h : M.Reachable s) : ∃ tr, M.Run tr s := by
  induction h with
  | init h => exact ⟨[], .init h⟩
  | step _ h ih =>
    obtain ⟨tr, hrun⟩ := ih
    exact ⟨_, .step hrun h⟩

theorem Run.step_of_mem {tr : List (Transition σ α)} {s : σ} (h : M.Run tr s) {t : Transition σ α}
    (ht : t ∈ tr) : M.step t.source t.action t.target := by
  induction h with
  | init => simp at ht
  | step _ h ih =>
    rcases List.mem_append.mp ht with ht | ht
    . exact ih ht
    . obtain rfl := List.mem_singleton.mp ht
      exact h

theorem Reachable.path {s s' : σ} {tr : List (Transition σ α)} (hs : M.Reachable s)
    (h : M.Path s tr s') : M.Reachable s' := by
  induction h with
  | nil => exact hs
  | cons h _ ih => exact ih (.step hs h)

theorem Run.append_path {tr tr' : List (Transition σ α)} {s s' : σ} (h : M.Run tr s)
    (hpath : M.Path s tr' s') : M.Run (tr ++ tr') s' := by
  induction hpath generalizing tr with
  | nil =>
    rw [List.append_nil]
    exact h
  | cons hstep _ ih =>
    have := ih (.step h hstep)
    rwa [List.append_assoc, List.singleton_append] at this

theorem Path.invariant {I : σ → Prop} {s s' : σ} {tr : List (Transition σ α)} (h : M.Path s tr s')
    (hs : I s)
    (hstep : ∀ t ∈ tr, M.step t.source t.action t.target → I t.source → I t.target) : I s' := by
  induction h with
  | nil => exact hs
  | cons h _ ih =>
    rw [List.forall_mem_cons] at hstep
    exact ih (hstep.1 h hs) hstep.2

theorem Run.invariant {I : σ → Prop} {tr : List (Transition σ α)} {s : σ} (h : M.Run tr s)
    (hinit : ∀ s, M.init s → I s)
    (hstep : ∀ t ∈ tr, M.step t.source t.action t.target → I t.source → I t.target) : I s := by
  induction h with
  | init h => exact hinit _ h
  | step _ h ih =>
    rw [List.forall_mem_append, List.forall_mem_singleton] at hstep
    exact hstep.2 h (ih hstep.1)

/--
A property of transitions that holds of each step out of a good state, and leaves the state good, holds
along a run whose steps all meet its condition.
-/
theorem Run.forall_of_good {P C : Transition σ α → Prop} (Good : σ → Prop)
    (hinit : ∀ s, M.init s → Good s)
    (hstep : ∀ s a s', M.Reachable s → Good s → M.step s a s' → C ⟨s, a, s'⟩ →
      P ⟨s, a, s'⟩ ∧ Good s')
    {tr : List (Transition σ α)} {s : σ} (h : M.Run tr s) (hC : ∀ t ∈ tr, C t) : ∀ t ∈ tr, P t := by
  have hrun : (∀ t ∈ tr, P t) ∧ Good s := by
    induction h with
    | init h => exact ⟨by simp, hinit _ h⟩
    | step hrun h ih =>
      rw [List.forall_mem_append, List.forall_mem_singleton] at hC
      obtain ⟨hP, hs⟩ := ih hC.1
      obtain ⟨hlast, hgood⟩ := hstep _ _ _ hrun.reachable hs h hC.2
      refine ⟨?_, hgood⟩
      rw [List.forall_mem_append, List.forall_mem_singleton]
      exact ⟨hP, hlast⟩
  exact hrun.1

/--
Two properties of transitions agree on every run if they agree on each reachable step out of a good
state, and the first of them keeps the state good.
-/
theorem Run.forall_iff_of_good {P C : Transition σ α → Prop} (Good : σ → Prop)
    (hinit : ∀ s, M.init s → Good s)
    (hgood : ∀ s a s', M.Reachable s → Good s → M.step s a s' → P ⟨s, a, s'⟩ → Good s')
    (hstep : ∀ s a s', M.Reachable s → Good s → M.step s a s' → (P ⟨s, a, s'⟩ ↔ C ⟨s, a, s'⟩))
    {tr : List (Transition σ α)} {s : σ} (h : M.Run tr s) :
    (∀ t ∈ tr, P t) ↔ ∀ t ∈ tr, C t := by
  have hrun : ((∀ t ∈ tr, P t) ↔ ∀ t ∈ tr, C t) ∧ ((∀ t ∈ tr, P t) → Good s) := by
    -- the last state is known to be good only as long as `P` has held so far
    induction h with
    | init h => exact ⟨by simp, fun _ => hinit _ h⟩
    | step hrun h ih =>
      obtain ⟨ih, hs⟩ := ih
      simp only [List.forall_mem_append, List.forall_mem_singleton]
      refine ⟨?_, fun hP => hgood _ _ _ hrun.reachable (hs hP.1) h hP.2⟩
      constructor
      . intro hP
        exact ⟨ih.mp hP.1, (hstep _ _ _ hrun.reachable (hs hP.1) h).mp hP.2⟩
      . intro hC
        have hP := ih.mpr hC.1
        exact ⟨hP, (hstep _ _ _ hrun.reachable (hs hP) h).mpr hC.2⟩
  exact hrun.1

theorem Run.forall_iff {P C : Transition σ α → Prop}
    (hstep : ∀ s a s', M.Reachable s → M.step s a s' → (P ⟨s, a, s'⟩ ↔ C ⟨s, a, s'⟩))
    {tr : List (Transition σ α)} {s : σ} (h : M.Run tr s) :
    (∀ t ∈ tr, P t) ↔ ∀ t ∈ tr, C t := by
  refine Run.forall_iff_of_good (fun _ => True) (fun _ _ => trivial) ?_ ?_ h
  . intro _ _ _ _ _ _ _
    trivial
  . intro s a s' hs _ h
    exact hstep s a s' hs h

section Exec

def ofFun (start : σ) (f : σ → α → Option σ) : Machine σ α where
  init s := s = start
  step s a s' := f s a = some s'

def exec (f : σ → α → Option σ) (s : σ) : List α → Option σ
  | [] => some s
  | a :: as =>
    match f s a with
    | none => none
    | some s' => exec f s' as

variable {f : σ → α → Option σ}

theorem exec_append (s : σ) (as bs : List α) :
    exec f s (as ++ bs) = (exec f s as).bind fun s' => exec f s' bs := by
  induction as generalizing s with
  | nil => rfl
  | cons a as ih =>
    simp only [List.cons_append, exec]
    cases f s a with
    | none => rfl
    | some s' => exact ih s'

theorem Reachable.exec {start s s' : σ} {as : List α} (hs : (ofFun start f).Reachable s)
    (h : exec f s as = some s') : (ofFun start f).Reachable s' := by
  induction as generalizing s with
  | nil =>
    simp only [Machine.exec, Option.some.injEq] at h
    exact h ▸ hs
  | cons a as ih =>
    simp only [Machine.exec] at h
    split at h
    . simp at h
    . next s1 h1 => exact ih (.step hs h1) h

theorem reachable_of_exec {start s' : σ} {as : List α} (h : exec f start as = some s') :
    (ofFun start f).Reachable s' := by
  exact Reachable.exec (.init rfl) h

theorem exists_reachable_of_exec {start : σ} {as : List α} {P : σ → Bool}
    (h : (exec f start as).any P = true) : ∃ s, (ofFun start f).Reachable s ∧ P s = true := by
  obtain ⟨s, hs, hP⟩ := (Option.any_eq_true _ _).mp h
  exact ⟨s, reachable_of_exec hs, hP⟩

/--
The transitions of the actions `as`, up to the first that is not possible.
-/
def trace (f : σ → α → Option σ) (s : σ) : List α → List (Transition σ α)
  | [] => []
  | a :: as =>
    match f s a with
    | none => []
    | some s' => ⟨s, a, s'⟩ :: trace f s' as

theorem path_trace {start s s' : σ} {as : List α} (h : exec f s as = some s') :
    (ofFun start f).Path s (trace f s as) s' := by
  induction as generalizing s with
  | nil =>
    simp only [Machine.exec, Option.some.injEq] at h
    exact h ▸ .nil s
  | cons a as ih =>
    simp only [Machine.exec] at h
    simp only [trace]
    split at h
    . simp at h
    . next s1 h1 => exact .cons h1 (ih h)

theorem Run.trace {s : σ} {tr : List (Transition σ α)} (hs : M.Run tr s)
    (hf : ∀ s a s', f s a = some s' → M.step s a s') (as : List α) :
    ∃ s', M.Run (tr ++ Machine.trace f s as) s' := by
  induction as generalizing s tr with
  | nil =>
    simp only [Machine.trace, List.append_nil]
    exact ⟨s, hs⟩
  | cons a as ih =>
    simp only [Machine.trace]
    split
    . rw [List.append_nil]
      exact ⟨s, hs⟩
    . next s1 h1 =>
      obtain ⟨s', hs'⟩ := ih (.step hs (hf _ _ _ h1))
      rw [List.append_assoc, List.singleton_append] at hs'
      exact ⟨s', hs'⟩

theorem run_trace {start : σ} (hstart : M.init start)
    (hf : ∀ s a s', f s a = some s' → M.step s a s') (as : List α) :
    ∃ s', M.Run (trace f start as) s' := by
  exact (Run.init hstart).trace hf as

theorem run_of_exec {start s' : σ} {as : List α} (h : exec f start as = some s') :
    (ofFun start f).Run (trace f start as) s' := by
  suffices hrun : ∀ {tr : List (Transition σ α)} {s : σ}, (ofFun start f).Run tr s →
      exec f s as = some s' → (ofFun start f).Run (tr ++ trace f s as) s' by
    exact hrun (.init rfl) h
  clear h
  induction as with
  | nil =>
    intro tr s hs h
    simp only [Machine.exec, Option.some.injEq] at h
    rw [trace, List.append_nil]
    exact h ▸ hs
  | cons a as ih =>
    intro tr s hs h
    simp only [Machine.exec] at h
    simp only [trace]
    split at h
    . simp at h
    . next s1 h1 =>
      have := ih (.step hs h1) h
      rwa [List.append_assoc, List.singleton_append] at this

theorem exists_transition {start : σ} (hstart : M.init start)
    (hf : ∀ s a s', f s a = some s' → M.step s a s') (as : List α) {P : Transition σ α → Bool}
    (h : (trace f start as).any P = true) : ∃ tr s, M.Run tr s ∧ ∃ t ∈ tr, P t = true := by
  obtain ⟨s, hs⟩ := run_trace hstart hf as
  exact ⟨_, s, hs, List.any_eq_true.mp h⟩

end Exec

end Machine
