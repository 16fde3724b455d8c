import Mathlib.Data.Finset.Basic
import Mathlib.Data.Fintype.Defs

/-!
This module contains presence at several sources: the changes that a source announces, the union of
what is present at the sources, and the listing that merges the changes of all sources without a
record of where they come from.
-/

namespace Presence

inductive Change (κ : Type) where
  | snapshot (all : List κ)
  | join (c : κ)
  | leave (c : κ)
  | drop

variable {ι κ : Type} [DecidableEq ι] [DecidableEq κ]

def Change.apply (present : Finset κ) : Change κ → Finset κ
  | .snapshot all => all.toFinset
  | .join c => insert c present
  | .leave c => present.erase c
  | .drop => ∅

def update (sources : ι → Finset κ) (i : ι) (change : Change κ) : ι → Finset κ :=
  fun j => if j = i then change.apply (sources i) else sources j

def union (own : κ) (sources : ι → Finset κ) : Set κ := {c | c ≠ own ∧ ∃ i, c ∈ sources i}

def Change.merge (own : κ) (listed : Set κ) : Change κ → Set κ
  | .snapshot all => listed ∪ {c | c ≠ own ∧ c ∈ all}
  | .join c => listed ∪ {c' | c' ≠ own ∧ c' = c}
  | .leave c => {c' | c' ∈ listed ∧ c' ≠ c}
  | .drop => listed

def Elsewhere (sources : ι → Finset κ) (i : ι) (c : κ) : Prop := ∃ j, j ≠ i ∧ c ∈ sources j

/--
The change takes away from its source only what another source does not have, if it says so by a
`leave`, and only what another source has, if it leaves it out.
-/
def Lossless (own : κ) (sources : ι → Finset κ) (i : ι) : Change κ → Prop
  | .snapshot all => ∀ c ∈ sources i, c ≠ own → c ∉ all → Elsewhere sources i c
  | .join _ => True
  | .leave c => c ≠ own → ¬ Elsewhere sources i c
  | .drop => ∀ c ∈ sources i, c ≠ own → Elsewhere sources i c

section

variable [Fintype ι]

instance (sources : ι → Finset κ) (i : ι) (c : κ) : Decidable (Elsewhere sources i c) :=
  inferInstanceAs (Decidable (∃ j, j ≠ i ∧ c ∈ sources j))

instance (own : κ) (sources : ι → Finset κ) (i : ι) (change : Change κ) :
    Decidable (Lossless own sources i change) := by
  cases change <;> unfold Lossless <;> infer_instance

end

omit [DecidableEq κ] in
theorem mem_union_iff {own : κ} {sources : ι → Finset κ} (i : ι) {c : κ} :
    c ∈ union own sources ↔ c ≠ own ∧ (c ∈ sources i ∨ Elsewhere sources i c) := by
  refine and_congr_right fun _ => ?_
  constructor
  . rintro ⟨j, hj⟩
    by_cases hne : j = i
    . exact .inl (hne ▸ hj)
    . exact .inr ⟨j, hne, hj⟩
  . rintro (hi | ⟨j, -, hj⟩)
    . exact ⟨i, hi⟩
    . exact ⟨j, hj⟩

theorem mem_union_update {own : κ} {sources : ι → Finset κ} {i : ι} {change : Change κ} {c : κ}
    : c ∈ union own (update sources i change)
        ↔
      c ≠ own ∧ (c ∈ change.apply (sources i) ∨ Elsewhere sources i c) := by
  rw [mem_union_iff i]
  have helsewhere : Elsewhere (update sources i change) i c ↔ Elsewhere sources i c := by
    refine exists_congr fun j => and_congr_right fun hne => ?_
    simp [update, hne]
  simp [helsewhere, update]

theorem merge_union_iff {own : κ} {sources : ι → Finset κ} {i : ι} {change : Change κ}
    : (∀ c, c ∈ change.merge own (union own sources) ↔ c ∈ union own (update sources i change))
        ↔
      Lossless own sources i change := by
  simp only [mem_union_update]
  cases change with
  | snapshot all =>
    simp only [Change.merge, Change.apply, Lossless, Set.mem_union, mem_union_iff i,
      Set.mem_ofPred_eq, List.mem_toFinset]
    constructor
    . intro h c hc hown hall
      exact ((h c).mp (.inl ⟨hown, .inl hc⟩)).2.resolve_left hall
    . intro h c
      have := h c
      tauto
  | join c =>
    simp only [Change.merge, Change.apply, Lossless, Set.mem_union, mem_union_iff i,
      Set.mem_ofPred_eq, Finset.mem_insert, iff_true]
    intro c'
    tauto
  | leave c =>
    simp only [Change.merge, Change.apply, Lossless, mem_union_iff i, Set.mem_ofPred_eq,
      Finset.mem_erase]
    constructor
    . intro h hown helsewhere
      exact ((h c).mpr ⟨hown, .inr helsewhere⟩).2 rfl
    . intro h c'
      by_cases hc : c' = c
      . subst hc
        tauto
      . tauto
  | drop =>
    simp only [Change.merge, Change.apply, Lossless, mem_union_iff i, Finset.notMem_empty,
      false_or]
    constructor
    . intro h c hc hown
      exact ((h c).mp ⟨hown, .inl hc⟩).2
    . intro h c
      have := h c
      tauto

end Presence
