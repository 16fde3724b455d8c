import Mathlib.Algebra.Group.Nat.Defs
import Mathlib.Data.List.Induction
import Mathlib.Data.List.Infix

/-!
This module contains numerals over any radix: the value of a list of digits, the one numeral of a value
that has no leading zero, and the numerals that begin with a given one.
-/

namespace LocalBolt

namespace Numeral

/--
The most significant digit comes first.
-/
def value (radix : Nat) (digits : List Nat) : Nat :=
  digits.foldl (fun result digit => result * radix + digit) 0

variable {radix : Nat}

theorem value_append_singleton (digits : List Nat) (digit : Nat)
    : value radix (digits ++ [digit]) = value radix digits * radix + digit := by
  simp [value]

theorem value_pos {digits : List Nat} (hradix : 0 < radix) {digit : Nat} (h : digits.head? = some digit)
    (hpos : 0 < digit) : 0 < value radix digits := by
  induction digits using List.reverseRecOn with
  | nil => contradiction
  | append_singleton digits last ih =>
    rw [value_append_singleton]
    cases digits with
    | nil =>
      obtain rfl := Option.some.inj h
      exact Nat.add_pos_right _ hpos
    | cons first digits =>
      have hfirst := ih h
      exact Nat.add_pos_left (Nat.mul_pos hfirst hradix) _

theorem value_toDigits (hradix : 1 < radix) (n : Nat)
    : ∃ digits, Nat.toDigits radix n = digits.map Nat.digitChar ∧ value radix digits = n
        ∧ ∀ digit ∈ digits, digit < radix := by
  induction n using Nat.strongRecOn with
  | ind n ih =>
    by_cases hlt : n < radix
    . refine ⟨[n], Nat.toDigits_of_lt_base hlt, by simp [value], ?_⟩
      simpa using hlt
    . have hle := Nat.not_lt.mp hlt
      obtain ⟨digits, htext, hvalue, hdigits⟩ := ih (n / radix) (Nat.div_lt_self (by omega) hradix)
      refine ⟨digits ++ [n % radix], ?_, ?_, ?_⟩
      . rw [Nat.toDigits_of_base_le hradix hle, htext, List.map_append, List.map_singleton]
      . rw [value_append_singleton, hvalue, Nat.div_add_mod']
      . rw [List.forall_mem_append, List.forall_mem_singleton]
        exact ⟨hdigits, Nat.mod_lt n (by omega)⟩

/--
A numeral without a leading zero is how its value is written.
-/
theorem toDigits_value (hradix : 1 < radix) {digits : List Nat} (hne : digits ≠ [])
    (hlead : digits.head? = some 0 → digits.length = 1) (h : ∀ digit ∈ digits, digit < radix)
    : Nat.toDigits radix (value radix digits) = digits.map Nat.digitChar := by
  induction digits using List.reverseRecOn with
  | nil => contradiction
  | append_singleton digits last ih =>
    rw [List.forall_mem_append, List.forall_mem_singleton] at h
    rw [value_append_singleton]
    cases digits with
    | nil => simpa [value] using Nat.toDigits_of_lt_base h.2
    | cons first digits =>
      have hfirst : first ≠ 0 := by
        rintro rfl
        simp at hlead
      have hpos : 0 < value radix (first :: digits) :=
        value_pos (by omega) rfl (Nat.pos_of_ne_zero hfirst)
      have hle : radix ≤ value radix (first :: digits) * radix + last :=
        Nat.le_trans (Nat.le_mul_of_pos_left radix hpos) (Nat.le_add_right _ _)
      have hdigits : Nat.toDigits radix (value radix (first :: digits))
          = (first :: digits).map Nat.digitChar := by
        apply ih
        . simp
        . intro hzero
          exact absurd (Option.some.inj hzero) hfirst
        . exact h.1
      rw [Nat.toDigits_of_base_le hradix hle, Nat.mul_comm, Nat.mul_add_div (by omega),
        Nat.div_eq_of_lt h.2, Nat.add_zero, Nat.mul_add_mod, Nat.mod_eq_of_lt h.2, hdigits,
        List.map_append, List.map_singleton]

theorem head?_toDigits (hradix : 1 < radix) {n : Nat} (hpos : 0 < n) :
    (Nat.toDigits radix n).head? ≠ some '0' := by
  induction n using Nat.strongRecOn with
  | ind n ih =>
    by_cases hlt : n < radix
    . rw [Nat.toDigits_of_lt_base hlt, List.head?_cons, Ne, Option.some.injEq, Nat.digitChar_eq_zero]
      exact Nat.ne_of_gt hpos
    . have hle := Nat.not_lt.mp hlt
      have hshorter := ih (n / radix) (Nat.div_lt_self hpos hradix) (Nat.div_pos hle (by omega))
      rw [Nat.toDigits_of_base_le hradix hle, List.head?_append]
      cases hhead : (Nat.toDigits radix (n / radix)).head? with
      | none => exact absurd (List.head?_eq_none_iff.mp hhead) Nat.toDigits_ne_nil
      | some c =>
        rw [hhead] at hshorter
        exact hshorter

/-! ### Leading digits -/

theorem value_append_div {digits : List Nat} (h : ∀ digit ∈ digits, digit < radix)
    (leading : List Nat)
    : value radix (leading ++ digits) / radix ^ digits.length = value radix leading := by
  induction digits using List.reverseRecOn with
  | nil => simp
  | append_singleton digits last ih =>
    rw [List.forall_mem_append, List.forall_mem_singleton] at h
    have hradix : 0 < radix := Nat.zero_lt_of_lt h.2
    rw [← List.append_assoc, value_append_singleton, List.length_append, List.length_singleton,
      Nat.pow_succ', ← Nat.div_div_eq_div_mul, Nat.mul_comm, Nat.mul_add_div hradix,
      Nat.div_eq_of_lt h.2, Nat.add_zero, ih h.1]

theorem value_injective {digits digits' : List Nat} (h : ∀ digit ∈ digits, digit < radix)
    (h' : ∀ digit ∈ digits', digit < radix) (hlength : digits.length = digits'.length)
    (hvalue : value radix digits = value radix digits') : digits = digits' := by
  induction digits using List.reverseRecOn generalizing digits' with
  | nil => exact (List.length_eq_zero_iff.mp hlength.symm).symm
  | append_singleton digits last ih =>
    cases digits' using List.reverseRecOn with
    | nil => simp at hlength
    | append_singleton digits' last' =>
      rw [List.forall_mem_append, List.forall_mem_singleton] at h h'
      have hsame : [last].length = [last'].length := rfl
      have hleading := congrArg (· / radix ^ [last].length) hvalue
      rw [value_append_div (List.forall_mem_singleton.mpr h.2), hsame,
        value_append_div (List.forall_mem_singleton.mpr h'.2)] at hleading
      rw [List.length_append, List.length_append, hsame, Nat.add_right_cancel_iff] at hlength
      rw [value_append_singleton, value_append_singleton, hleading] at hvalue
      rw [ih h.1 h'.1 hlength hleading, Nat.add_left_cancel hvalue]

theorem toDigits_prefix_of_div (hradix : 1 < radix) (n k : Nat) (hpos : 0 < n / radix ^ k)
    : Nat.toDigits radix (n / radix ^ k) <+: Nat.toDigits radix n := by
  induction k with
  | zero =>
    rw [Nat.pow_zero, Nat.div_one]
  | succ k ih =>
    rw [Nat.pow_succ, ← Nat.div_div_eq_div_mul] at hpos ⊢
    have hle : radix ≤ n / radix ^ k := by
      by_contra hlt
      rw [Nat.div_eq_of_lt (Nat.not_le.mp hlt)] at hpos
      exact absurd hpos (Nat.lt_irrefl 0)
    have hshorter : Nat.toDigits radix (n / radix ^ k / radix)
        <+: Nat.toDigits radix (n / radix ^ k) := by
      rw [Nat.toDigits_of_base_le hradix hle]
      apply List.prefix_append
    exact hshorter.trans (ih (Nat.lt_of_lt_of_le (by omega) hle))

end Numeral

end LocalBolt
