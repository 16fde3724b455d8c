import Mathlib.Algebra.Group.Nat.Defs
import Mathlib.Data.List.Infix

/-!
This module contains how bytes are read as UTF-8 with a replacement for what is not, and that an ASCII
text stands in what is read exactly where its bytes stand.
-/

namespace LocalBolt

namespace Utf8

/-! ### Reading -/

/--
The ranges of the bytes that go on with a character, by its first byte.
-/
def followers (byte : UInt8) : List (Nat × Nat) :=
  let first := byte.toNat
  let tail := (0x80, 0xBF)
  if 0xC2 ≤ first ∧ first ≤ 0xDF then [tail]
  else if first = 0xE0 then [(0xA0, 0xBF), tail]
  else if first = 0xED then [(0x80, 0x9F), tail]
  else if 0xE1 ≤ first ∧ first ≤ 0xEF then [tail, tail]
  else if first = 0xF0 then [(0x90, 0xBF), tail, tail]
  else if 0xF1 ≤ first ∧ first ≤ 0xF3 then [tail, tail, tail]
  else if first = 0xF4 then [(0x80, 0x8F), tail, tail]
  else []

def firstBits (byte : UInt8) : Nat :=
  let first := byte.toNat
  if first < 0xE0 then first % 32 else if first < 0xF0 then first % 16 else first % 8

def replacement : Char := '\uFFFD'

/--
Reads bytes, a character having begun if there are ranges. A byte that cannot go on with it ends it, and
begins another one.
-/
def decodeLossy (ranges : List (Nat × Nat)) (bits : Nat) : List UInt8 → List Char
  | [] => if ranges.isEmpty then [] else [replacement]
  | byte :: bytes =>
    let fresh :=
      if byte.toNat < 0x80 then .ofNat byte.toNat :: decodeLossy [] 0 bytes
      else if (followers byte).isEmpty then replacement :: decodeLossy [] 0 bytes
      else decodeLossy (followers byte) (firstBits byte) bytes
    match ranges with
    | [] => fresh
    | (low, high) :: ranges =>
      let bits := bits * 64 + byte.toNat % 64
      if low ≤ byte.toNat ∧ byte.toNat ≤ high then
        if ranges.isEmpty then .ofNat bits :: decodeLossy [] 0 bytes
        else decodeLossy ranges bits bytes
      else
        replacement :: fresh

def fromUtf8Lossy (bytes : List UInt8) : List Char := decodeLossy [] 0 bytes

/-! ### ASCII -/

/--
The text is read off the bytes: an ASCII byte is a character, and any other character comes from bytes
none of which is ASCII.
-/
inductive Reads : List UInt8 → List Char → Prop where
  | nil : Reads [] []
  | ascii {byte : UInt8} {bytes : List UInt8} {text : List Char} (h : byte.toNat < 0x80)
      (hreads : Reads bytes text) : Reads (byte :: bytes) (.ofNat byte.toNat :: text)
  | other {byte : UInt8} {more bytes : List UInt8} {c : Char} {text : List Char}
      (hbytes : ∀ b ∈ byte :: more, 0x80 ≤ b.toNat) (hc : 0x80 ≤ c.toNat) (hreads : Reads bytes text)
      : Reads (byte :: more ++ bytes) (c :: text)

/--
Bytes in the ranges make up a character that is not ASCII.
-/
def Completes : List (Nat × Nat) → Nat → Prop
  | [], bits => 0x80 ≤ bits ∧ bits.isValidChar
  | (low, high) :: ranges, bits => 0x80 ≤ low
    ∧ ∀ byte, low ≤ byte → byte ≤ high → Completes ranges (bits * 64 + byte % 64)

theorem completes_tails (k : Nat) {bits : Nat}
    (h : ∀ value, bits * 64 ^ k ≤ value → value < (bits + 1) * 64 ^ k → 0x80 ≤ value ∧ value.isValidChar)
    : Completes (List.replicate k (0x80, 0xBF)) bits := by
  induction k generalizing bits with
  | zero =>
    apply h bits
    . rw [Nat.pow_zero, Nat.mul_one]
    . rw [Nat.pow_zero, Nat.mul_one]
      exact Nat.lt_succ_self bits
  | succ k ih =>
    refine ⟨Nat.le_refl _, ?_⟩
    intro byte _ _
    apply ih
    intro value hlow hhigh
    have hsplit : ∀ n, n * 64 ^ (k + 1) = n * 64 * 64 ^ k := by
      intro n
      rw [Nat.pow_succ, Nat.mul_comm (64 ^ k), ← Nat.mul_assoc]
    apply h value
    . rw [hsplit]
      exact (Nat.mul_le_mul_right _ (by omega)).trans hlow
    . rw [hsplit]
      exact hhigh.trans_le (Nat.mul_le_mul_right _ (by omega))

theorem completes_first (k : Nat) {low high bits : Nat} (hlow : 0x80 ≤ low) (hhigh : high ≤ 0xBF)
    (hascii : 0x80 ≤ (bits * 64 + low % 64) * 64 ^ k)
    (hvalid : (bits * 64 + high % 64 + 1) * 64 ^ k ≤ 0xD800
      ∨ (0xE000 ≤ (bits * 64 + low % 64) * 64 ^ k ∧ (bits * 64 + high % 64 + 1) * 64 ^ k ≤ 0x110000))
    : Completes ((low, high) :: List.replicate k (0x80, 0xBF)) bits := by
  refine ⟨hlow, ?_⟩
  intro byte hbyte hbyte'
  apply completes_tails
  intro value hvalue hvalue'
  have hleast : (bits * 64 + low % 64) * 64 ^ k ≤ value :=
    (Nat.mul_le_mul_right _ (by omega)).trans hvalue
  have hmost : value < (bits * 64 + high % 64 + 1) * 64 ^ k :=
    hvalue'.trans_le (Nat.mul_le_mul_right _ (by omega))
  rw [Nat.isValidChar]
  omega

theorem completes_followers {byte : UInt8} (h : (followers byte).isEmpty = false) :
    Completes (followers byte) (firstBits byte) := by
  have htwo : byte.toNat < 0xE0 → firstBits byte = byte.toNat % 32 := fun hlt => if_pos hlt
  have hthree : 0xE0 ≤ byte.toNat → byte.toNat < 0xF0 → firstBits byte = byte.toNat % 16 :=
    fun hle hlt => (if_neg (Nat.not_lt.mpr hle)).trans (if_pos hlt)
  have hfour : 0xF0 ≤ byte.toNat → firstBits byte = byte.toNat % 8 :=
    fun hle => (if_neg (by omega)).trans (if_neg (Nat.not_lt.mpr hle))
  unfold followers at *
  dsimp only at h ⊢
  split_ifs at h ⊢ with hrange hrange hrange hrange hrange hrange hrange
  . rw [htwo (by omega)]
    exact completes_first 0 (by decide) (by decide) (by omega) (by omega)
  . rw [hthree (by omega) (by omega)]
    exact completes_first 1 (by decide) (by decide) (by omega) (by omega)
  . rw [hthree (by omega) (by omega)]
    exact completes_first 1 (by decide) (by decide) (by omega) (by omega)
  . rw [hthree (by omega) (by omega)]
    exact completes_first 1 (by decide) (by decide) (by omega) (by omega)
  . rw [hfour (by omega)]
    exact completes_first 2 (by decide) (by decide) (by omega) (by omega)
  . rw [hfour (by omega)]
    exact completes_first 2 (by decide) (by decide) (by omega) (by omega)
  . rw [hfour (by omega)]
    exact completes_first 2 (by decide) (by decide) (by omega) (by omega)
  . contradiction

/--
While a character is being read, the bytes it has so far are none of ASCII.
-/
theorem reads_decodeLossy (bytes : List UInt8)
    : Reads bytes (decodeLossy [] 0 bytes)
        ∧ ∀ {range ranges bits byte more}, Completes (range :: ranges) bits →
          (∀ b ∈ byte :: more, 0x80 ≤ b.toNat) →
          Reads (byte :: more ++ bytes) (decodeLossy (range :: ranges) bits bytes) := by
  induction bytes with
  | nil =>
    constructor
    . exact .nil
    . intro range ranges bits byte more _ hbytes
      exact .other hbytes (by decide) .nil
  | cons byte bytes ih =>
    obtain ⟨hnext, hpending⟩ := ih
    have hfresh : Reads (byte :: bytes) (decodeLossy [] 0 (byte :: bytes)) := by
      by_cases hascii : byte.toNat < 0x80
      . rw [decodeLossy, if_pos hascii]
        exact .ascii hascii hnext
      . have hbyte : ∀ b ∈ [byte], 0x80 ≤ b.toNat := by
          simpa using hascii
        cases hempty : (followers byte).isEmpty with
        | true =>
          rw [decodeLossy, if_neg hascii, if_pos hempty]
          exact .other hbyte (by decide) hnext
        | false =>
          have hcompletes := completes_followers hempty
          rw [decodeLossy, if_neg hascii, if_neg (by simp [hempty])]
          cases hranges : followers byte with
          | nil => simp [hranges] at hempty
          | cons range ranges =>
            rw [hranges] at hcompletes
            exact hpending hcompletes hbyte
    constructor
    . exact hfresh
    . rintro ⟨low, high⟩ ranges bits first more ⟨hlow, hcompletes⟩ hbytes
      by_cases hrange : low ≤ byte.toNat ∧ byte.toNat ≤ high
      . have hcompletes := hcompletes byte.toNat hrange.1 hrange.2
        have hmore : ∀ b ∈ first :: (more ++ [byte]), 0x80 ≤ b.toNat := by
          intro b hb
          rw [← List.cons_append, List.mem_append, List.mem_singleton] at hb
          rcases hb with hb | rfl
          . exact hbytes b hb
          . omega
        have hall : first :: more ++ byte :: bytes = first :: (more ++ [byte]) ++ bytes := by simp
        rw [decodeLossy, if_pos hrange, hall]
        cases ranges with
        | nil =>
          apply Reads.other hmore _ hnext
          rw [Char.ofNat, dif_pos hcompletes.2]
          exact hcompletes.1
        | cons range ranges => exact hpending hcompletes hmore
      . rw [decodeLossy, if_neg hrange]
        exact .other hbytes (by decide) hfresh

/-! ### ASCII texts -/

def ascii (text : String) : List UInt8 := text.toList.map fun c => .ofNat c.toNat

def toAsciiLowercase (byte : UInt8) : UInt8 :=
  if 65 ≤ byte.toNat ∧ byte.toNat ≤ 90 then byte + 32 else byte

theorem toNat_toAsciiLowercase (byte : UInt8)
    : (toAsciiLowercase byte).toNat
        =
      if 65 ≤ byte.toNat ∧ byte.toNat ≤ 90 then byte.toNat + 32 else byte.toNat := by
  unfold toAsciiLowercase
  split
  . rw [UInt8.toNat_add]
    exact Nat.mod_eq_of_lt (by simp; omega)
  . rfl

theorem toNat_toLower {n : Nat} (h : n < 0x80)
    : (Char.ofNat n).toLower.toNat = if 65 ≤ n ∧ n ≤ 90 then n + 32 else n := by
  revert n
  decide

theorem toLower_of_not_ascii {c : Char} (h : 0x80 ≤ c.toNat) : c.toLower = c := by
  unfold Char.toLower
  apply dif_neg
  rintro ⟨-, hle⟩
  have hle : c.toNat ≤ 90 := hle
  omega

theorem eq_toLower_iff {c : Char} (hc : c.toNat < 0x80) {byte : UInt8} (hbyte : byte.toNat < 0x80)
    : c = (Char.ofNat byte.toNat).toLower ↔ UInt8.ofNat c.toNat = toAsciiLowercase byte := by
  rw [← Char.toNat_inj, ← UInt8.toNat_inj, toNat_toLower hbyte, toNat_toAsciiLowercase,
    UInt8.toNat_ofNat', Nat.mod_eq_of_lt (hc.trans (by decide))]

theorem ne_toAsciiLowercase {c : Char} (hc : c.toNat < 0x80) {byte : UInt8} (hbyte : 0x80 ≤ byte.toNat) :
    UInt8.ofNat c.toNat ≠ toAsciiLowercase byte := by
  intro heq
  have hnat := congrArg UInt8.toNat heq
  rw [toNat_toAsciiLowercase, UInt8.toNat_ofNat', if_neg (by omega)] at hnat
  omega

theorem prefix_iff {bytes : List UInt8} {decoded : List Char} (hreads : Reads bytes decoded)
    {text : List Char} (htext : ∀ c ∈ text, c.toNat < 0x80)
    : text <+: decoded.map Char.toLower
        ↔
      (text.map fun c => UInt8.ofNat c.toNat) <+: bytes.map toAsciiLowercase := by
  induction hreads generalizing text with
  | nil => simp
  | ascii hbyte hreads ih =>
    cases text with
    | nil => simp
    | cons c text =>
      rw [List.forall_mem_cons] at htext
      rw [List.map_cons, List.map_cons, List.map_cons, List.cons_prefix_cons, List.cons_prefix_cons,
        eq_toLower_iff htext.1 hbyte, ih htext.2]
  | other hbytes hc hreads ih =>
    cases text with
    | nil => simp
    | cons c text =>
      rw [List.forall_mem_cons] at htext hbytes
      rw [List.map_cons, List.map_cons, List.cons_append, List.map_cons, List.cons_prefix_cons,
        List.cons_prefix_cons, toLower_of_not_ascii hc]
      constructor
      . rintro ⟨rfl, -⟩
        omega
      . rintro ⟨heq, -⟩
        exact absurd heq (ne_toAsciiLowercase htext.1 hbytes.1)

theorem infix_append_iff {c : Char} (hc : c.toNat < 0x80) {text more bytes : List UInt8}
    (hmore : ∀ b ∈ more, 0x80 ≤ b.toNat)
    : UInt8.ofNat c.toNat :: text <:+: (more ++ bytes).map toAsciiLowercase
        ↔
      UInt8.ofNat c.toNat :: text <:+: bytes.map toAsciiLowercase := by
  induction more with
  | nil => rfl
  | cons byte more ih =>
    rw [List.forall_mem_cons] at hmore
    rw [List.cons_append, List.map_cons, List.infix_cons_iff, List.cons_prefix_cons, ih hmore.2]
    have hne := ne_toAsciiLowercase hc hmore.1
    simp [hne]

theorem infix_iff {bytes : List UInt8} {decoded : List Char} (hreads : Reads bytes decoded)
    {text : List Char} (htext : ∀ c ∈ text, c.toNat < 0x80)
    : text <:+: decoded.map Char.toLower
        ↔
      (text.map fun c => UInt8.ofNat c.toNat) <:+: bytes.map toAsciiLowercase := by
  induction hreads with
  | nil => simp
  | ascii hbyte hreads ih =>
    have hprefix := prefix_iff (.ascii hbyte hreads) htext
    rw [List.map_cons, List.map_cons] at hprefix ⊢
    rw [List.infix_cons_iff, List.infix_cons_iff, hprefix, ih]
  | @other _ _ _ c' _ hbytes hc hreads ih =>
    cases text with
    | nil => simp
    | cons c text =>
      have hlt := (List.forall_mem_cons.mp htext).1
      have hne : c ≠ c' := by
        rintro rfl
        omega
      rw [List.map_cons, List.infix_cons_iff, List.cons_prefix_cons, toLower_of_not_ascii hc, ih,
        List.map_cons, infix_append_iff hlt hbytes]
      simp [hne]

theorem infix_fromUtf8Lossy_iff (text : String)
    (htext : (text.toList.all fun c => c.toNat < 0x80) = true)
    (bytes : List UInt8)
    : text.toList <:+: (fromUtf8Lossy bytes).map Char.toLower
        ↔
      ascii text <:+: bytes.map toAsciiLowercase := by
  apply infix_iff (reads_decodeLossy bytes).1
  simpa using htext

end Utf8

end LocalBolt
