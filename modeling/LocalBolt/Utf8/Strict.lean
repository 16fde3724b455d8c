import LocalBolt.Occurrence.Basic
import LocalBolt.Utf8.Basic

/-!
This module contains how a text is written as UTF-8, and how bytes that may not be UTF-8 are read as a
text: the two are inverse, and what is ASCII stands at the same places in both.
-/

namespace LocalBolt

namespace Utf8

def encode (text : String) : List UInt8 := text.toList.flatMap String.utf8EncodeChar

theorem encode_append (a b : String) : encode (a ++ b) = encode a ++ encode b := by
  rw [encode, String.toList_append, List.flatMap_append]
  rfl

def decode? (bytes : List UInt8) : Option String := String.fromUTF8? bytes.toByteArray

theorem toByteArray_encode (text : String) : (encode text).toByteArray = text.toByteArray := by
  rw [encode, ← List.utf8Encode, String.utf8Encode_toList]

theorem decode?_eq_some_iff {bytes : List UInt8} {text : String} :
    decode? bytes = some text ↔ encode text = bytes := by
  have hbytes : encode text = bytes ↔ text.toByteArray = bytes.toByteArray := by
    rw [← toByteArray_encode, List.toByteArray_inj]
  rw [hbytes, decode?, String.fromUTF8?]
  split
  . next hvalid => rw [Option.some.injEq, String.fromUTF8, ← String.toByteArray_inj, eq_comm]
  . next hvalid =>
    constructor
    . intro h
      contradiction
    . intro h
      exact absurd (h ▸ text.isValidUTF8) hvalid

@[simp]
theorem decode?_encode (text : String) : decode? (encode text) = some text :=
  decode?_eq_some_iff.mpr rfl

theorem utf8EncodeChar_ascii {c : Char} (h : c.toNat < 0x80) :
    String.utf8EncodeChar c = [UInt8.ofNat c.toNat] :=
  if_pos (Nat.le_of_lt_succ h)

theorem toNat_of_mem_utf8EncodeChar {c : Char} {byte : UInt8} (h : byte ∈ String.utf8EncodeChar c) :
    byte.toNat < 0xF8 ∧ (0x80 ≤ c.toNat → 0x80 ≤ byte.toNat) := by
  have hc : c.val.toNat = c.toNat := rfl
  unfold String.utf8EncodeChar at h
  dsimp only at h
  rw [hc] at h
  split_ifs at h <;>
  . simp only [List.mem_cons, List.not_mem_nil, or_false] at h
    rcases h with rfl | rfl | rfl | rfl <;> simp <;> omega

theorem decode?_eq_none {bytes : List UInt8} {byte : UInt8} (h : byte ∈ bytes) (hbyte : 0xF8 ≤ byte.toNat) :
    decode? bytes = none := by
  rw [Option.eq_none_iff_forall_ne_some]
  intro text htext
  rw [decode?_eq_some_iff] at htext
  obtain ⟨c, -, hc⟩ := List.mem_flatMap.mp (htext ▸ h)
  have := (toNat_of_mem_utf8EncodeChar hc).1
  omega

theorem toNat_byte {c : Char} (h : c.toNat < 0x80) : (UInt8.ofNat c.toNat).toNat = c.toNat := by
  rw [UInt8.toNat_ofNat', Nat.mod_eq_of_lt (h.trans (by decide))]

theorem byte_mem_encode {text : String} {c : Char} (hc : c.toNat < 0x80) (h : c ∈ text.toList) :
    UInt8.ofNat c.toNat ∈ encode text := by
  apply List.mem_flatMap.mpr
  exact ⟨c, h, by simp [utf8EncodeChar_ascii hc]⟩

theorem reads_encode (text : String) : Reads (encode text) text.toList := by
  unfold encode
  induction text.toList with
  | nil => exact .nil
  | cons c text ih =>
    rw [List.flatMap_cons]
    by_cases hc : c.toNat < 0x80
    . have hbyte : (UInt8.ofNat c.toNat).toNat < 0x80 := (toNat_byte hc).symm ▸ hc
      have hread := Reads.ascii hbyte ih
      rw [toNat_byte hc, Char.ofNat_toNat] at hread
      rw [utf8EncodeChar_ascii hc]
      exact hread
    . have hbytes : ∀ b ∈ String.utf8EncodeChar c, 0x80 ≤ b.toNat := fun b hb =>
        (toNat_of_mem_utf8EncodeChar hb).2 (Nat.le_of_not_lt hc)
      cases hencoded : String.utf8EncodeChar c with
      | nil => exact absurd hencoded String.utf8EncodeChar_ne_nil
      | cons byte more => exact .other (hencoded ▸ hbytes) (Nat.le_of_not_lt hc) ih

/-! ### ASCII patterns -/

theorem toNat_ofNat_ascii {n : Nat} (h : n < 0x80) : (Char.ofNat n).toNat = n := by
  revert n
  decide

theorem isPrefix_iff {bytes : List UInt8} {text : List Char} (hreads : Reads bytes text)
    {pattern : List Char} (hpattern : ∀ c ∈ pattern, c.toNat < 0x80)
    : (pattern.map fun c => UInt8.ofNat c.toNat) <+: bytes ↔ pattern <+: text := by
  induction hreads generalizing pattern with
  | nil => simp
  | @ascii byte bytes text hbyte hreads ih =>
    cases pattern with
    | nil => simp
    | cons c pattern =>
      rw [List.forall_mem_cons] at hpattern
      have hhead : UInt8.ofNat c.toNat = byte ↔ c = Char.ofNat byte.toNat := by
        rw [← UInt8.toNat_inj, toNat_byte hpattern.1, ← Char.toNat_inj, toNat_ofNat_ascii hbyte]
      rw [List.map_cons, List.cons_prefix_cons, List.cons_prefix_cons, hhead, ih hpattern.2]
  | other hbytes hc hreads ih =>
    cases pattern with
    | nil => simp
    | cons c pattern =>
      rw [List.forall_mem_cons] at hpattern hbytes
      rw [List.map_cons, List.cons_append, List.cons_prefix_cons, List.cons_prefix_cons]
      constructor
      . rintro ⟨rfl, -⟩
        have := hbytes.1
        rw [toNat_byte hpattern.1] at this
        omega
      . rintro ⟨rfl, -⟩
        omega

/--
Patterns of ASCII occur in the bytes of a text as they occur in the text.
-/
theorem occurrences_reads {β : Type} {bytes : List UInt8} {text : List Char} (hreads : Reads bytes text)
    {patterns : List (List Char × β)} (hne : ∀ p ∈ patterns, p.1 ≠ [])
    (hascii : ∀ p ∈ patterns, ∀ c ∈ p.1, c.toNat < 0x80)
    : Occurrence.occurrences
          (patterns.map fun p => (p.1.map fun c => UInt8.ofNat c.toNat, p.2)) bytes
        =
      Occurrence.occurrences patterns text := by
  have hbytes : ∀ p ∈ patterns, ∀ {bytes text}, Reads bytes text →
      ((p.1.map fun c => UInt8.ofNat c.toNat) <+: bytes ↔ p.1 <+: text) := fun p hp _ _ hreads =>
    isPrefix_iff hreads (hascii p hp)
  have hfilter : ∀ {bytes text}, Reads bytes text →
      (((patterns.map fun p => (p.1.map fun c => UInt8.ofNat c.toNat, p.2)).filter
          fun p => p.1 <+: bytes).map Prod.snd)
        = (patterns.filter fun p => p.1 <+: text).map Prod.snd := by
    intro bytes text hreads
    rw [List.filter_map, List.map_map]
    congr 1
    apply List.filter_congr
    intro p hp
    simpa using hbytes p hp hreads
  induction hreads with
  | nil => rfl
  | ascii hbyte hreads ih =>
    rw [Occurrence.occurrences, Occurrence.occurrences, hfilter (.ascii hbyte hreads), ih]
  | @other byte more bytes c text hhigh hc hreads ih =>
    have hskip : Occurrence.occurrences
          (patterns.map fun p => (p.1.map fun c => UInt8.ofNat c.toNat, p.2)) (byte :: more ++ bytes)
        = Occurrence.occurrences
          (patterns.map fun p => (p.1.map fun c => UInt8.ofNat c.toNat, p.2)) bytes := by
      apply Occurrence.occurrences_append
      rintro a ha _ hmem after hprefix
      obtain ⟨⟨pattern, b⟩, hp, rfl⟩ := List.mem_map.mp hmem
      cases pattern with
      | nil => exact hne ([], b) hp rfl
      | cons c pattern =>
        have hlow := hascii (c :: pattern, b) hp c (List.mem_cons_self ..)
        have hhigh := hhigh a ha
        rw [← (List.cons_prefix_cons.mp hprefix).1, toNat_byte hlow] at hhigh
        omega
    have hnone : (patterns.filter fun p => p.1 <+: c :: text) = [] := by
      rw [List.filter_eq_nil_iff]
      rintro ⟨pattern, b⟩ hp
      rw [decide_eq_true_eq]
      intro hprefix
      cases pattern with
      | nil => exact hne ([], b) hp rfl
      | cons c' pattern =>
        have hlow := hascii (c' :: pattern, b) hp c' (List.mem_cons_self ..)
        rw [(List.cons_prefix_cons.mp hprefix).1] at hlow
        omega
    rw [hskip, ih, Occurrence.occurrences, hnone]
    rfl

end Utf8

end LocalBolt
