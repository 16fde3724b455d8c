import LocalBolt.Machine.Origin

/-!
This module contains the scan of a shared structure that is read part by part, each part at an instant
of its own, while other parties change the structure in between; the loop body may end the scan early.
-/

/--
A running scan: the structure as it is now, the number of parts read, and the loop variable, or what the
loop has returned.
-/
structure Scan (σ γ ρ : Type) where
  shared : σ
  index : Nat
  loop : Except ρ γ

namespace Scan

inductive Action (α : Type) where
  | other (a : α)
  | visit

variable {σ α β γ ρ : Type}

/--
`part i s` is what the `i`-th of `parts` parts holds in the state `s`; the scan begins in a reachable
state of the machine `M` of the other parties.
-/
def machine (M : Machine σ α) (parts : Nat) (part : Nat → σ → List β) (body : γ → β → Except ρ γ)
    (first : γ) : Machine (Scan σ γ ρ) (Action α) where
  init s := M.Reachable s.shared ∧ s.index = 0 ∧ s.loop = .ok first
  step s a s' :=
    match a with
    | .other a => M.step s.shared a s'.shared ∧ s'.index = s.index ∧ s'.loop = s.loop
    | .visit =>
      s.index < parts ∧ ∃ acc, s.loop = .ok acc
        ∧ s' = ⟨s.shared, s.index + 1, (part s.index s.shared).foldlM body acc⟩

variable {M : Machine σ α} {parts : Nat} {part : Nat → σ → List β} {body : γ → β → Except ρ γ}
  {first : γ}

theorem reachable_shared {s : Scan σ γ ρ} (h : (machine M parts part body first).Reachable s) :
    M.Reachable s.shared := by
  apply Machine.Reachable.invariant (I := fun s : Scan σ γ ρ => M.Reachable s.shared) _ _ h
  . rintro s ⟨hs, -⟩
    exact hs
  . rintro s (a | _) s' - hs hstep
    . exact .step hs hstep.1
    . obtain ⟨-, acc, -, rfl⟩ := hstep
      exact hs

/--
The part with number `i` has been read in the run `tr`, and `l` was its content.
-/
def Read (part : Nat → σ → List β) (tr : List (Transition (Scan σ γ ρ) (Action α))) (i : Nat)
    (l : List β) : Prop :=
  ∃ t ∈ tr, t.action = .visit ∧ t.source.index = i ∧ l = part i t.source.shared

theorem Read.append {tr tr' : List (Transition (Scan σ γ ρ) (Action α))} {i : Nat} {l : List β}
    (h : Read part tr i l) : Read part (tr ++ tr') i l := by
  obtain ⟨t, ht, h⟩ := h
  exact ⟨t, List.mem_append_left _ ht, h⟩

/--
What a scan has computed is what its loop makes of the parts, each as it was when it was read.
-/
theorem exists_parts {tr : List (Transition (Scan σ γ ρ) (Action α))} {s : Scan σ γ ρ}
    (h : (machine M parts part body first).Run tr s)
    : ∃ read : List (List β), read.length = s.index ∧ s.index ≤ parts
        ∧ (∀ i l, read[i]? = some l → Read part tr i l)
        ∧ s.loop = read.flatten.foldlM body first := by
  induction h with
  | init h =>
    obtain ⟨-, hindex, hloop⟩ := h
    refine ⟨[], by simp [hindex], by omega, by simp, ?_⟩
    rw [hloop]
    rfl
  | @step tr s s' a _ hstep ih =>
    obtain ⟨read, hlength, hparts, hread, hloop⟩ := ih
    cases a with
    | other a =>
      obtain ⟨-, hindex, hloop'⟩ := hstep
      exact ⟨read, by omega, by omega, fun i l hl => (hread i l hl).append, by rw [hloop', hloop]⟩
    | visit =>
      obtain ⟨hindex, acc, hacc, rfl⟩ := hstep
      refine ⟨read ++ [part s.index s.shared], by simp [hlength], hindex, ?_, ?_⟩
      . intro i l hl
        rcases Nat.lt_or_ge i read.length with hi | hi
        . rw [List.getElem?_append_left hi] at hl
          exact (hread i l hl).append
        . rw [List.getElem?_append_right hi, List.getElem?_singleton] at hl
          split at hl
          . next hzero =>
            have hi' : s.index = i := by omega
            refine ⟨_, List.mem_append_right _ (List.mem_singleton_self _), rfl, hi', ?_⟩
            rw [← Option.some.inj hl, hi']
          . simp at hl
      . rw [hacc] at hloop
        rw [List.flatten_append, List.flatten_singleton, List.foldlM_append, ← hloop]
        rfl

/--
The scan is over: its loop has returned, or it has come to the last part.
-/
def Done (parts : Nat) (s : Scan σ γ ρ) : Prop := s.index = parts ∨ ∃ r, s.loop = .error r

/--
An item that a part has held ever since the scan began is among those read, once the scan has come to
the last part.
-/
theorem mem_flatten_of_forall {tr : List (Transition (Scan σ γ ρ) (Action α))} {read : List (List β)}
    (hread : ∀ i l, read[i]? = some l → Read part tr i l) (i : Nat) (hi : i < read.length) {x : β}
    (hx : ∀ t ∈ tr, x ∈ part i t.source.shared) : x ∈ read.flatten := by
  obtain ⟨t, ht, -, -, hl⟩ := hread i _ (List.getElem?_eq_getElem hi)
  exact List.mem_flatten.mpr ⟨_, List.getElem_mem hi, hl ▸ hx t ht⟩

/--
An item that was read was there when its part was read.
-/
theorem exists_read_of_mem {tr : List (Transition (Scan σ γ ρ) (Action α))} {read : List (List β)}
    (hread : ∀ i l, read[i]? = some l → Read part tr i l) {x : β} (hx : x ∈ read.flatten)
    : ∃ i, ∃ t ∈ tr, x ∈ part i t.source.shared := by
  obtain ⟨l, hl, hx⟩ := List.mem_flatten.mp hx
  obtain ⟨i, hi⟩ := List.getElem?_of_mem hl
  obtain ⟨t, ht, -, -, rfl⟩ := hread i l hi
  exact ⟨i, t, ht, hx⟩

end Scan
