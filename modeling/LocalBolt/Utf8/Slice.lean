import Mathlib.Data.List.Infix

/-!
This module contains the offsets in a text that count the bytes of its UTF-8 encoding, as slices of a
string do.
-/

namespace LocalBolt

namespace Utf8

/--
`str::len`
-/
def len : List Char → Nat
  | [] => 0
  | c :: text => c.utf8Size + len text

/--
The slice `&text[..n]`, which exists when a character begins or the text ends at the offset `n`.
-/
def sliceTo? : List Char → Nat → Option (List Char)
  | _, 0 => some []
  | [], _ + 1 => none
  | c :: text, n + 1 =>
    if c.utf8Size ≤ n + 1 then (sliceTo? text (n + 1 - c.utf8Size)).map (c :: ·) else none

theorem len_eq_zero_iff {text : List Char} : len text = 0 ↔ text = [] := by
  cases text with
  | nil => simp [len]
  | cons c text =>
    have hpos := c.utf8Size_pos
    simp only [len, reduceCtorEq, iff_false]
    omega

theorem sliceTo?_zero_iff {text part : List Char}
    : sliceTo? text 0 = some part ↔ part <+: text ∧ len part = 0 := by
  have hzero : sliceTo? text 0 = some [] := by cases text <;> rfl
  rw [hzero, len_eq_zero_iff, Option.some.injEq, eq_comm]
  constructor
  . rintro rfl
    exact ⟨List.nil_prefix, rfl⟩
  . exact And.right

theorem sliceTo?_eq_some_iff {text part : List Char} {n : Nat}
    : sliceTo? text n = some part ↔ part <+: text ∧ len part = n := by
  induction text generalizing n part with
  | nil =>
    cases n with
    | zero => exact sliceTo?_zero_iff
    | succ n =>
      simp only [sliceTo?, reduceCtorEq, false_iff, not_and, List.prefix_nil]
      rintro rfl
      exact Nat.succ_ne_zero n ∘ Eq.symm
  | cons c text ih =>
    cases n with
    | zero => exact sliceTo?_zero_iff
    | succ n =>
      unfold sliceTo?
      cases part with
      | nil => split <;> simp [len]
      | cons d part =>
        have hlen : len (d :: part) = d.utf8Size + len part := rfl
        rw [List.cons_prefix_cons, hlen]
        split
        . next hle =>
          rw [Option.map_eq_some_iff]
          constructor
          . rintro ⟨part', hslice, heq⟩
            rw [List.cons.injEq] at heq
            obtain ⟨rfl, rfl⟩ := heq
            obtain ⟨hinitial, hsize⟩ := ih.mp hslice
            exact ⟨⟨rfl, hinitial⟩, by omega⟩
          . rintro ⟨⟨rfl, hinitial⟩, hsize⟩
            exact ⟨part, ih.mpr ⟨hinitial, by omega⟩, rfl⟩
        . next hgt =>
          simp only [reduceCtorEq, false_iff, not_and]
          rintro ⟨rfl, -⟩
          omega

theorem sliceTo?_len (text : List Char) : sliceTo? text (len text) = some text :=
  sliceTo?_eq_some_iff.mpr ⟨List.prefix_rfl, rfl⟩

end Utf8

end LocalBolt
