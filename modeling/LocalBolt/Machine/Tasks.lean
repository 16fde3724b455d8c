import LocalBolt.Machine.Basic
import Mathlib.Logic.Function.Basic

/-!
This module contains tasks that run the methods of a shared state step by step, with their steps
interleaved in any order.
-/

/--
The methods of a shared state: how a call begins, and the step that follows at each program point. A
task at a point without a step has returned and may call again.
-/
structure Methods (σ κ π : Type) where
  call : σ → κ → σ × π
  step : σ → π → Option (σ × π)

structure Tasks (τ σ π : Type) where
  shared : σ
  pc : τ → π

namespace Tasks

variable {τ σ κ π : Type} [DecidableEq τ]

inductive Action (τ κ : Type) where
  | call (task : τ) (method : κ)
  | step (task : τ)

def start (shared : σ) (returned : π) : Tasks τ σ π where
  shared
  pc _ := returned

def move (s : Tasks τ σ π) (task : τ) (p : σ × π) : Tasks τ σ π where
  shared := p.1
  pc := Function.update s.pc task p.2

def next (M : Methods σ κ π) (s : Tasks τ σ π) : Action τ κ → Option (Tasks τ σ π)
  | .call task method =>
    if (M.step s.shared (s.pc task)).isNone then
      some (s.move task (M.call s.shared method))
    else
      none
  | .step task => (M.step s.shared (s.pc task)).map (s.move task)

variable {M : Methods σ κ π}

theorem invariant {I : σ → Prop} {shared : σ} {returned : π} (hshared : I shared)
    (hcall : ∀ s method, I s → I (M.call s method).1)
    (hstep : ∀ s pc p, I s → M.step s pc = some p → I p.1) {s : Tasks τ σ π}
    (h : (Machine.ofFun (start shared returned) (next M)).Reachable s) : I s.shared := by
  refine Machine.Reachable.invariant (I := fun s => I s.shared) ?_ ?_ h
  . intro s hs
    obtain rfl : s = start shared returned := hs
    exact hshared
  . intro s action s' _ hs hnext
    simp only [Machine.ofFun] at hnext
    cases action with
    | call task method =>
      simp only [next] at hnext
      split at hnext
      . obtain rfl := Option.some.inj hnext
        exact hcall _ _ hs
      . simp at hnext
    | step task =>
      obtain ⟨p, hp, rfl⟩ := Option.map_eq_some_iff.mp hnext
      exact hstep _ _ _ hs hp

end Tasks
