import LocalBolt.Numeral.Basic
import LocalBolt.Occurrence.Basic
import LocalBolt.Rendezvous.Impl.IpAddr

/-!
This module contains what the readers of IP addresses accept: numbers, the octets of an IPv4 address
and the groups of an IPv6 address, as they are written.
-/

namespace LocalBolt

namespace Rendezvous

namespace AddrParser

/-! ### Numbers -/

theorem toDigit_digitChar (radix : Nat) {digit : Nat} (h : digit < 16)
    : toDigit radix digit.digitChar = if digit < radix then some digit else none := by
  have hletter : toDigit 16 digit.digitChar = some digit := by
    revert digit
    decide
  unfold toDigit at hletter ⊢
  dsimp only at hletter ⊢
  rw [Option.filter_eq_some_iff] at hletter
  rw [hletter.1]
  by_cases hlt : digit < radix
  . rw [if_pos hlt, Option.filter_some, if_pos (decide_eq_true hlt)]
  . rw [if_neg hlt, Option.filter_some, if_neg (by simpa using hlt)]

theorem toDigit_lt {radix digit : Nat} {c : Char} (h : toDigit radix c = some digit) :
    digit < radix := by
  unfold toDigit at h
  rw [Option.filter_eq_some_iff] at h
  simpa using h.2

/--
Decimal digits have no upper and lower case.
-/
theorem eq_digitChar {digit : Nat} {c : Char} (h : toDigit 10 c = some digit) :
    c = digit.digitChar := by
  have hlt := toDigit_lt h
  unfold toDigit at h
  dsimp only at h
  rw [Option.filter_eq_some_iff] at h
  obtain ⟨h, -⟩ := h
  split at h
  . next hdecimal =>
    obtain ⟨hle, -⟩ := hdecimal
    have hle : 48 ≤ c.toNat := hle
    have hdigit : c.toNat - 48 = digit := Option.some.inj h
    apply Char.toNat_inj.mp
    rw [Nat.toNat_digitChar_of_lt_ten hlt]
    omega
  . split at h
    . have hdigit := Option.some.inj h
      omega
    . split at h
      . have hdigit := Option.some.inj h
        omega
      . contradiction

def Stops (radix : Nat) (rest : List Char) : Prop := ∀ c ∈ rest.head?, toDigit radix c = none

structure IsNumber (radix maxDigits bound : Nat) (allowZeroPrefix : Bool) (digits : List Char)
    (n : Nat) : Prop where
  isDigit : ∀ c ∈ digits, (toDigit radix c).isSome = true
  nonempty : digits ≠ []
  length_le : digits.length ≤ maxDigits
  lead : allowZeroPrefix = false → digits.head? = some '0' → digits.length = 1
  value : Numeral.value radix (digits.filterMap (toDigit radix)) = n
  lt : n < bound

theorem takeWhile_digits {radix : Nat} {digits rest : List Char}
    (hdigits : ∀ c ∈ digits, (toDigit radix c).isSome = true) (hrest : Stops radix rest)
    : ((digits ++ rest).takeWhile fun c => (toDigit radix c).isSome) = digits
        ∧ ((digits ++ rest).dropWhile fun c => (toDigit radix c).isSome) = rest := by
  have hstop : (rest.takeWhile fun c => (toDigit radix c).isSome) = []
      ∧ (rest.dropWhile fun c => (toDigit radix c).isSome) = rest := by
    cases rest with
    | nil => exact ⟨rfl, rfl⟩
    | cons c rest =>
      have hnone := hrest c rfl
      simp [hnone]
  rw [List.takeWhile_append_of_pos hdigits, List.dropWhile_append_of_pos hdigits, hstop.1, hstop.2,
    List.append_nil]
  exact ⟨rfl, rfl⟩

theorem stops_dropWhile (radix : Nat) (text : List Char)
    : Stops radix (text.dropWhile fun c => (toDigit radix c).isSome) := by
  intro c hc
  have hnot := List.head?_dropWhile_not (fun c => (toDigit radix c).isSome) text
  rw [Option.mem_def.mp hc] at hnot
  simpa using hnot

theorem readNumber_eq_some_iff {radix maxDigits bound : Nat} {allowZeroPrefix : Bool}
    {text rest : List Char} {n : Nat}
    : readNumber radix maxDigits bound allowZeroPrefix text = some (n, rest)
        ↔
      ∃ digits, text = digits ++ rest ∧ IsNumber radix maxDigits bound allowZeroPrefix digits n
        ∧ Stops radix rest := by
  constructor
  . intro hread
    unfold readNumber at hread
    dsimp only at hread
    split at hread
    . contradiction
    . next hlength =>
      split at hread
      . contradiction
      . next hlead =>
        split at hread
        . next hlt =>
          obtain ⟨rfl, rfl⟩ := Prod.mk.inj (Option.some.inj hread)
          refine ⟨_, List.takeWhile_append_dropWhile.symm, ⟨?_, ?_, ?_, ?_, rfl, hlt⟩,
            stops_dropWhile radix text⟩
          . intro c hc
            exact List.all_eq_true.mp List.all_takeWhile c hc
          . intro hnil
            exact hlength (.inl (List.length_eq_zero_iff.mpr hnil))
          . omega
          . intro hallow hzero
            have hone : ¬ 1 < (text.takeWhile fun c => (toDigit radix c).isSome).length :=
              fun hmany => hlead ⟨hallow, hzero, hmany⟩
            omega
        . contradiction
  . rintro ⟨digits, rfl, hnumber, hrest⟩
    obtain ⟨htake, hdrop⟩ := takeWhile_digits hnumber.isDigit hrest
    have hlength := List.length_pos_iff.mpr hnumber.nonempty
    have hvalue : (digits.filterMap (toDigit radix)).foldl
        (fun result digit => result * radix + digit) 0 = n := hnumber.value
    have hlead : ¬ (allowZeroPrefix = false ∧ digits.head? = some '0' ∧ digits.length > 1) := by
      rintro ⟨hallow, hzero, hmany⟩
      have hone := hnumber.lead hallow hzero
      omega
    have hfits : ¬ (digits.length = 0 ∨ digits.length > maxDigits) := by
      have hle := hnumber.length_le
      omega
    unfold readNumber
    rw [htake, hdrop]
    dsimp only
    rw [if_neg hfits, if_neg hlead, hvalue, if_pos hnumber.lt]

/-! ### Canonical numbers -/

theorem isNumber_toDigits {radix maxDigits bound n : Nat} (hradix : 1 < radix)
    (hradix' : radix ≤ 16) (hmax : 0 < maxDigits) (hbound : bound ≤ radix ^ maxDigits)
    (allowZeroPrefix : Bool) (h : n < bound)
    : IsNumber radix maxDigits bound allowZeroPrefix (Nat.toDigits radix n) n := by
  obtain ⟨digits, htext, hvalue, hdigits⟩ := Numeral.value_toDigits hradix n
  have hread : ∀ digit ∈ digits, toDigit radix digit.digitChar = some digit := by
    intro digit hmem
    have hlt := hdigits digit hmem
    rw [toDigit_digitChar radix (by omega), if_pos hlt]
  constructor
  . rw [htext, List.forall_mem_map]
    intro digit hmem
    rw [hread digit hmem]
    rfl
  . exact Nat.toDigits_ne_nil
  . rw [Nat.length_toDigits_le_iff hradix hmax]
    exact Nat.lt_of_lt_of_le h hbound
  . intro _ hzero
    by_cases hpos : 0 < n
    . exact absurd hzero (Numeral.head?_toDigits hradix hpos)
    . rw [Nat.eq_zero_of_not_pos hpos, Nat.toDigits_zero, List.length_singleton]
  . have hsame : (digits.map Nat.digitChar).filterMap (toDigit radix) = digits := by
      rw [List.filterMap_map]
      exact (List.filterMap_congr hread).trans List.filterMap_some
    rw [htext, hsame, hvalue]
  . exact h

theorem map_digitChar {digits : List Char} (h : ∀ c ∈ digits, (toDigit 10 c).isSome = true)
    : (digits.filterMap (toDigit 10)).map Nat.digitChar = digits := by
  induction digits with
  | nil => rfl
  | cons c digits ih =>
    rw [List.forall_mem_cons] at h
    obtain ⟨digit, hdigit⟩ := Option.isSome_iff_exists.mp h.1
    rw [List.filterMap_cons_some hdigit, List.map_cons, ih h.2, eq_digitChar hdigit]

theorem IsNumber.eq_toDigits {maxDigits bound n : Nat} {digits : List Char}
    (h : IsNumber 10 maxDigits bound false digits n) : digits = Nat.toDigits 10 n := by
  have htext := map_digitChar h.isDigit
  rw [← h.value, Numeral.toDigits_value (by decide), htext]
  . intro hnil
    rw [hnil] at htext
    exact h.nonempty htext.symm
  . intro hzero
    have hlength := h.lead rfl (by rw [← htext, List.head?_map, hzero]; rfl)
    rw [← htext, List.length_map] at hlength
    exact hlength
  . intro digit hdigit
    obtain ⟨c, -, hc⟩ := List.mem_filterMap.mp hdigit
    exact toDigit_lt hc

/-! ### IPv4 -/

/--
The rest of a separated list, after its first part.
-/
def following (sep : Char) (parts : List (List Char)) : List Char :=
  parts.flatMap fun part => sep :: part

theorem intercalate_cons (sep : Char) (part : List Char) (parts : List (List Char))
    : [sep].intercalate (part :: parts) = part ++ following sep parts := by
  induction parts generalizing part with
  | nil => simp [following]
  | cons next parts ih =>
    rw [List.intercalate_cons_cons, ih next]
    simp [following]

def octetText (octet : UInt8) : List Char := Nat.toDigits 10 octet.toNat

theorem readNumber_octet_iff {text rest : List Char} {n : Nat}
    : readNumber 10 3 256 false text = some (n, rest)
        ↔
      n < 256 ∧ text = octetText (.ofNat n) ++ rest ∧ Stops 10 rest := by
  rw [readNumber_eq_some_iff]
  constructor
  . rintro ⟨digits, rfl, hnumber, hrest⟩
    refine ⟨hnumber.lt, ?_, hrest⟩
    rw [octetText, UInt8.toNat_ofNat_of_lt' hnumber.lt, ← hnumber.eq_toDigits]
  . rintro ⟨hlt, rfl, hrest⟩
    refine ⟨_, rfl, ?_, hrest⟩
    rw [octetText, UInt8.toNat_ofNat_of_lt' hlt]
    exact isNumber_toDigits (by decide) (by decide) (by decide) (by decide) false hlt

theorem readGivenChar_eq_some_iff {target : Char} {text rest : List Char} :
    readGivenChar target text = some rest ↔ text = target :: rest := by
  cases text with
  | nil => simp [readGivenChar]
  | cons c text =>
    simp only [readGivenChar, Option.ite_none_right_eq_some, Option.some.injEq, List.cons.injEq]

theorem readSeparator_succ_eq_some_iff {α : Type} {sep : Char} {index : Nat}
    {inner : List Char → Option (α × List Char)} {text : List Char} {result : α × List Char}
    : readSeparator sep (index + 1) inner text = some result
        ↔
      ∃ rest, text = sep :: rest ∧ inner rest = some result := by
  rw [readSeparator, if_pos (Nat.succ_pos index), Option.bind_eq_some_iff]
  simp only [readGivenChar_eq_some_iff]

theorem stops_following_iff {radix : Nat} {sep : Char} (hsep : toDigit radix sep = none)
    (parts : List (List Char)) (rest : List Char)
    : Stops radix (following sep parts ++ rest) ↔ (parts = [] → Stops radix rest) := by
  cases parts with
  | nil => simp [following]
  | cons part parts => simp [following, Stops, hsep]

theorem readOctets_succ_iff {index left : Nat} {text rest : List Char} {octets : List UInt8}
    : readOctets index (left + 1) text = some (octets, rest)
        ↔
      ∃ n octets' text', octets = .ofNat n :: octets'
        ∧ readSeparator '.' index (readNumber 10 3 256 false) text = some (n, text')
        ∧ readOctets (index + 1) left text' = some (octets', rest) := by
  constructor
  . intro hread
    simp only [readOctets] at hread
    split at hread
    . contradiction
    . next n text' hoctet =>
      split at hread
      . contradiction
      . next octets' rest' hrest =>
        obtain ⟨rfl, rfl⟩ := Prod.mk.inj (Option.some.inj hread)
        exact ⟨n, octets', text', rfl, hoctet, hrest⟩
  . rintro ⟨n, octets', text', rfl, hoctet, hrest⟩
    simp only [readOctets, hoctet, hrest]

theorem stops_octets {octets : List UInt8} {rest : List Char} (hrest : octets = [] → Stops 10 rest) :
    Stops 10 (following '.' (octets.map octetText) ++ rest) := by
  apply (stops_following_iff (by rfl) _ rest).mpr
  intro hnil
  exact hrest (List.map_eq_nil_iff.mp hnil)

theorem readOctets_following_iff {index left : Nat} {text rest : List Char} {octets : List UInt8}
    : readOctets (index + 1) left text = some (octets, rest)
        ↔
      octets.length = left ∧ text = following '.' (octets.map octetText) ++ rest
        ∧ (octets ≠ [] → Stops 10 rest) := by
  induction left generalizing index text octets with
  | zero =>
    simp only [readOctets, Option.some.injEq, Prod.mk.injEq, List.length_eq_zero_iff]
    constructor
    . rintro ⟨rfl, rfl⟩
      simp [following]
    . rintro ⟨rfl, rfl, -⟩
      exact ⟨rfl, rfl⟩
  | succ left ih =>
    simp only [readOctets_succ_iff, readSeparator_succ_eq_some_iff, readNumber_octet_iff, ih]
    constructor
    . rintro ⟨n, octets, text', rfl, ⟨text'', rfl, -, rfl, hstops⟩, rfl, rfl, hend⟩
      refine ⟨rfl, by simp [following], ?_⟩
      intro _
      rw [stops_following_iff (by rfl), List.map_eq_nil_iff] at hstops
      by_cases hnil : octets = []
      . exact hstops hnil
      . exact hend hnil
    . rintro ⟨hlength, rfl, hend⟩
      cases octets with
      | nil => contradiction
      | cons octet octets =>
        have hstops := hend (List.cons_ne_nil octet octets)
        refine ⟨octet.toNat, octets, following '.' (octets.map octetText) ++ rest, ?_,
          ⟨_, ?_, ?_, rfl, ?_⟩, Nat.succ.inj hlength, rfl, fun _ => hstops⟩
        . rw [UInt8.ofNat_toNat]
        . simp [following]
        . exact octet.toNat_lt
        . exact stops_octets fun _ => hstops

theorem readIpv4Addr_eq_some_iff {text rest : List Char} {octets : List UInt8}
    : readIpv4Addr text = some (octets, rest)
        ↔
      octets.length = 4 ∧ text = ['.'].intercalate (octets.map octetText) ++ rest
        ∧ Stops 10 rest := by
  rw [readIpv4Addr, readOctets_succ_iff]
  simp only [readOctets_following_iff]
  constructor
  . rintro ⟨n, octets, text', rfl, hnumber, hlength, rfl, hend⟩
    obtain ⟨-, rfl, -⟩ := readNumber_octet_iff.mp hnumber
    refine ⟨congrArg Nat.succ hlength, ?_, ?_⟩
    . rw [List.map_cons, intercalate_cons, List.append_assoc]
    . apply hend
      rintro rfl
      contradiction
  . rintro ⟨hlength, rfl, hrest⟩
    cases octets with
    | nil => contradiction
    | cons octet octets =>
      refine ⟨octet.toNat, octets, following '.' (octets.map octetText) ++ rest, ?_, ?_,
        Nat.succ.inj hlength, rfl, fun _ => hrest⟩
      . rw [UInt8.ofNat_toNat]
      . apply readNumber_octet_iff.mpr
        refine ⟨octet.toNat_lt, ?_, stops_octets fun _ => hrest⟩
        rw [UInt8.ofNat_toNat, List.map_cons, intercalate_cons, List.append_assoc]

/-! ### IPv6 -/

def groupText (group : UInt16) : List Char := Nat.toDigits 16 group.toNat

/--
What can stand behind a group: nothing, or another colon.
-/
def Ended (rest : List Char) : Prop := ∀ c ∈ rest.head?, c = ':'

theorem Ended.stops {rest : List Char} (h : Ended rest) (radix : Nat) : Stops radix rest := by
  intro c hc
  rw [h c hc]
  rfl

theorem Ended.following {rest : List Char} (h : Ended rest) (parts : List (List Char)) :
    Ended (following ':' parts ++ rest) := by
  cases parts with
  | nil => exact h
  | cons part parts =>
    intro c hc
    exact (Option.some.inj hc).symm

theorem readNumber_eq_none {radix maxDigits bound : Nat} {allowZeroPrefix : Bool} {text : List Char}
    (h : Stops radix text) : readNumber radix maxDigits bound allowZeroPrefix text = none := by
  rw [Option.eq_none_iff_forall_ne_some]
  rintro ⟨n, rest⟩ hread
  obtain ⟨digits, rfl, hnumber, -⟩ := readNumber_eq_some_iff.mp hread
  cases digits with
  | nil => exact hnumber.nonempty rfl
  | cons c digits =>
    have hdigit := hnumber.isDigit c (List.mem_cons_self ..)
    rw [h c rfl] at hdigit
    contradiction

theorem isNumber_groupText (group : UInt16) :
    IsNumber 16 4 65536 true (groupText group) group.toNat := by
  exact isNumber_toDigits (by decide) (by decide) (by decide) (by decide) true group.toNat_lt

theorem readNumber_group (group : UInt16) {rest : List Char} (h : Ended rest)
    : readNumber 16 4 65536 true (groupText group ++ rest) = some (group.toNat, rest) := by
  exact readNumber_eq_some_iff.mpr ⟨_, rfl, isNumber_groupText group, h.stops 16⟩

/--
An IPv4 address shows in the first dot, which comes right after decimal digits.
-/
theorem dot_of_readIpv4Addr {text rest : List Char} {octets : List UInt8}
    (h : readIpv4Addr text = some (octets, rest))
    : ∃ digits rest', text = digits ++ '.' :: rest' ∧ ∀ c ∈ digits, (toDigit 10 c).isSome = true := by
  obtain ⟨hlength, rfl, -⟩ := readIpv4Addr_eq_some_iff.mp h
  match octets, hlength with
  | octet :: octet' :: octets, _ =>
    have hnumber : IsNumber 10 3 256 false (octetText octet) octet.toNat :=
      isNumber_toDigits (by decide) (by decide) (by decide) (by decide) false octet.toNat_lt
    refine ⟨octetText octet, octetText octet' ++ (following '.' (octets.map octetText) ++ rest), ?_,
      hnumber.isDigit⟩
    simp only [List.map_cons, intercalate_cons, following, List.flatMap_cons, List.append_assoc,
      List.cons_append]

theorem isSome_toDigit_hex {c : Char} (h : (toDigit 10 c).isSome = true) :
    (toDigit 16 c).isSome = true := by
  obtain ⟨digit, hdigit⟩ := Option.isSome_iff_exists.mp h
  have hlt := toDigit_lt hdigit
  rw [eq_digitChar hdigit, toDigit_digitChar 16 (by omega), if_pos (by omega)]
  rfl

theorem digits_unique {digits digits' rest rest' : List Char} {c c' : Char}
    (h : digits ++ c :: rest = digits' ++ c' :: rest')
    (hdigits : ∀ c ∈ digits, (toDigit 16 c).isSome = true)
    (hdigits' : ∀ c ∈ digits', (toDigit 16 c).isSome = true) (hc : toDigit 16 c = none)
    (hc' : toDigit 16 c' = none) : digits = digits' ∧ c = c' ∧ rest = rest' := by
  apply Occurrence.split_unique hdigits hdigits' _ _ h
  . simp [hc]
  . simp [hc']

theorem readIpv4Addr_group (group : UInt16) {rest : List Char} (h : Ended rest) :
    readIpv4Addr (groupText group ++ rest) = none := by
  rw [Option.eq_none_iff_forall_ne_some]
  rintro ⟨octets, rest'⟩ hread
  obtain ⟨digits, rest'', htext, hdigits⟩ := dot_of_readIpv4Addr hread
  have hgroup := (isNumber_groupText group).isDigit
  cases rest with
  | nil =>
    have hdot : '.' ∈ groupText group := by
      rw [List.append_nil] at htext
      rw [htext]
      simp
    exact absurd (hgroup '.' hdot) (by decide)
  | cons c rest =>
    obtain rfl := h c rfl
    obtain ⟨-, hdot, -⟩ := digits_unique htext hgroup (fun c hc => isSome_toDigit_hex (hdigits c hc))
      (by rfl) (by rfl)
    contradiction

theorem readSeparator_cons {α : Type} (sep : Char) (index : Nat)
    (inner : List Char → Option (α × List Char)) (text : List Char)
    : readSeparator sep (index + 1) inner (sep :: text) = inner text := by
  simp [readSeparator, readGivenChar]

theorem readGroups_eq_nil {index left : Nat} {text : List Char}
    (hipv4 : readSeparator ':' index readIpv4Addr text = none)
    (hgroup : readSeparator ':' index (readNumber 16 4 65536 true) text = none)
    : readGroups index left text = ([], false, text) := by
  cases left with
  | zero => rfl
  | succ left => simp [readGroups, hipv4, hgroup]

theorem readGroups_eq_cons {index left : Nat} {group : UInt16} {text text' rest : List Char}
    {groups : List UInt16} {ipv4 : Bool} (hipv4 : readSeparator ':' index readIpv4Addr text = none)
    (hgroup : readSeparator ':' index (readNumber 16 4 65536 true) text = some (group.toNat, text'))
    (hgroups : readGroups (index + 1) left text' = (groups, ipv4, rest))
    : readGroups index (left + 1) text = (group :: groups, ipv4, rest) := by
  simp [readGroups, hipv4, hgroup, hgroups]

/--
Nothing is left, or the zeroes follow.
-/
def Closed (rest : List Char) : Prop := rest = [] ∨ ∃ rest', rest = ':' :: ':' :: rest'

theorem Closed.ended {rest : List Char} (h : Closed rest) : Ended rest := by
  rcases h with rfl | ⟨rest', rfl⟩
  . rintro c ⟨⟩
  . rintro c ⟨⟩
    rfl

theorem readIpv4Addr_eq_none {text : List Char} (h : Stops 10 text) : readIpv4Addr text = none := by
  rw [Option.eq_none_iff_forall_ne_some]
  rintro ⟨octets, rest⟩ hread
  rw [readIpv4Addr, readOctets_succ_iff] at hread
  obtain ⟨n, octets, text', -, hnumber, -⟩ := hread
  rw [readSeparator, if_neg (Nat.lt_irrefl 0), readNumber_eq_none h] at hnumber
  contradiction

theorem readSeparator_closed {α : Type} {index : Nat} {inner : List Char → Option (α × List Char)}
    {rest : List Char} (h : Closed rest) (hinner : ∀ text, Ended text → inner text = none) :
    readSeparator ':' index inner rest = none := by
  cases index with
  | zero => exact hinner rest h.ended
  | succ index =>
    rw [Option.eq_none_iff_forall_ne_some]
    intro result hread
    obtain ⟨text, rfl, hresult⟩ := readSeparator_succ_eq_some_iff.mp hread
    rcases h with h | ⟨rest', h⟩
    . contradiction
    . obtain rfl := (List.cons.inj h).2
      rw [hinner] at hresult
      . contradiction
      . rintro c ⟨⟩
        rfl

theorem readGroups_closed {index left : Nat} {rest : List Char} (h : Closed rest) :
    readGroups index left rest = ([], false, rest) := by
  apply readGroups_eq_nil
  . exact readSeparator_closed h fun text htext => readIpv4Addr_eq_none (htext.stops 10)
  . exact readSeparator_closed h fun text htext => readNumber_eq_none (htext.stops 16)

theorem readGroups_following {index left : Nat} {groups : List UInt16} {rest : List Char}
    (hrest : Closed rest) (hle : groups.length ≤ left)
    : readGroups (index + 1) left (following ':' (groups.map groupText) ++ rest)
        =
      (groups, false, rest) := by
  induction groups generalizing index left with
  | nil => exact readGroups_closed hrest
  | cons group groups ih =>
    cases left with
    | zero => contradiction
    | succ left =>
      have hended := hrest.ended.following (groups.map groupText)
      have htext : following ':' ((group :: groups).map groupText) ++ rest
          = ':' :: (groupText group ++ (following ':' (groups.map groupText) ++ rest)) := by
        simp [following]
      rw [htext]
      apply readGroups_eq_cons
      . rw [readSeparator_cons, readIpv4Addr_group group hended]
      . rw [readSeparator_cons, readNumber_group group hended]
      . exact ih (Nat.le_of_succ_le_succ hle)

theorem readIpv4Addr_intercalate (groups : List UInt16) {rest : List Char} (hrest : Closed rest)
    : readIpv4Addr ([':'].intercalate (groups.map groupText) ++ rest) = none := by
  cases groups with
  | nil => exact readIpv4Addr_eq_none (hrest.ended.stops 10)
  | cons group groups =>
    rw [List.map_cons, intercalate_cons, List.append_assoc]
    exact readIpv4Addr_group group (hrest.ended.following _)

theorem readGroups_intercalate {left : Nat} {groups : List UInt16} {rest : List Char}
    (hrest : Closed rest) (hle : groups.length ≤ left)
    : readGroups 0 left ([':'].intercalate (groups.map groupText) ++ rest)
        =
      (groups, false, rest) := by
  cases groups with
  | nil => exact readGroups_closed hrest
  | cons group groups =>
    cases left with
    | zero => contradiction
    | succ left =>
      have hended := hrest.ended.following (groups.map groupText)
      rw [List.map_cons, intercalate_cons, List.append_assoc]
      apply readGroups_eq_cons
      . exact readIpv4Addr_group group hended
      . exact readNumber_group group hended
      . exact readGroups_following hrest (Nat.le_of_succ_le_succ hle)

/-! ### The zeroes -/

theorem readIpv6Addr_full {groups : List UInt16} (hlength : groups.length = 8)
    : readIpv6Addr ([':'].intercalate (groups.map groupText)) = some (groups, []) := by
  have hread := readGroups_intercalate (.inl rfl) (Nat.le_of_eq hlength)
  rw [List.append_nil] at hread
  unfold readIpv6Addr
  rw [hread]
  exact if_pos hlength

theorem readIpv6Addr_zeroes {groups groups' : List UInt16} {len : Nat} (hlen : 1 < len)
    (hlength : groups.length + len + groups'.length = 8)
    : readIpv6Addr ([':'].intercalate (groups.map groupText) ++ ':' :: ':'
          :: [':'].intercalate (groups'.map groupText))
        =
      some (groups ++ List.replicate len 0 ++ groups', []) := by
  have hclosed : Closed (':' :: ':' :: [':'].intercalate (groups'.map groupText)) := .inr ⟨_, rfl⟩
  have hread := @readGroups_intercalate 8 groups _ hclosed (by omega)
  have hread' := @readGroups_intercalate (8 - (groups.length + 1)) groups' [] (.inl rfl) (by omega)
  have hlen' : 8 - groups.length - groups'.length = len := by omega
  rw [List.append_nil] at hread'
  unfold readIpv6Addr
  rw [hread]
  simp only [readGivenChar, if_true, Option.bind_some, hread', hlen', Bool.false_eq_true, if_false]
  exact if_neg (by omega)

theorem readIpv6Addr_mapped (one two three four : UInt8)
    : readIpv6Addr ("::ffff:".toList ++ ['.'].intercalate ([one, two, three, four].map octetText))
        =
      some ([0, 0, 0, 0, 0, 0xffff, fromBeBytes one two, fromBeBytes three four], []) := by
  have hipv4 : readIpv4Addr (['.'].intercalate ([one, two, three, four].map octetText))
      = some ([one, two, three, four], []) := by
    rw [readIpv4Addr_eq_some_iff, List.append_nil]
    simp [Stops]
  generalize ['.'].intercalate ([one, two, three, four].map octetText) = text at hipv4 ⊢
  have hended : Ended (':' :: text) := by
    rintro c ⟨⟩
    rfl
  have hlast : readGroups 1 6 (':' :: text)
      = ([fromBeBytes one two, fromBeBytes three four], true, []) := by
    simp [readGroups, readSeparator_cons, hipv4]
  have htail : readGroups 0 7 (groupText 0xffff ++ ':' :: text)
      = ([0xffff, fromBeBytes one two, fromBeBytes three four], true, []) :=
    readGroups_eq_cons (readIpv4Addr_group 0xffff hended) (readNumber_group 0xffff hended) hlast
  have hhead : readGroups 0 8 (':' :: ':' :: (groupText 0xffff ++ ':' :: text))
      = ([], false, ':' :: ':' :: (groupText 0xffff ++ ':' :: text)) :=
    readGroups_closed (.inr ⟨_, rfl⟩)
  have htext : "::ffff:".toList ++ text = ':' :: ':' :: (groupText 0xffff ++ ':' :: text) := by rfl
  unfold readIpv6Addr
  rw [htext, hhead]
  simp [readGivenChar, htail]

/-! ### The first group -/

theorem readSeparator_eq_none {α : Type} {sep : Char} {index : Nat}
    {inner : List Char → Option (α × List Char)} {text : List Char} (h : text.head? ≠ some sep)
    : readSeparator sep (index + 1) inner text = none := by
  rw [Option.eq_none_iff_forall_ne_some]
  intro result hread
  obtain ⟨rest, rfl, -⟩ := readSeparator_succ_eq_some_iff.mp hread
  exact h rfl

theorem readGivenChar_eq_none {target : Char} {text : List Char} (h : text.head? ≠ some target) :
    readGivenChar target text = none := by
  rw [Option.eq_none_iff_forall_ne_some]
  intro rest hread
  rw [readGivenChar_eq_some_iff.mp hread] at h
  exact h rfl

/--
A text that does not begin with the zeroes begins with the digits of the first segment, and a colon.
-/
theorem readIpv6Addr_first {text rest : List Char} {segments : List UInt16}
    (hcolon : text.head? ≠ some ':') (hipv4 : readIpv4Addr text = none)
    (hread : readIpv6Addr text = some (segments, rest))
    : ∃ digits rest' n, text = digits ++ ':' :: rest' ∧ IsNumber 16 4 65536 true digits n
        ∧ segments.head? = some (.ofNat n) := by
  unfold readIpv6Addr at hread
  cases hnumber : readNumber 16 4 65536 true text with
  | none =>
    have hgroups := @readGroups_eq_nil 0 8 text hipv4 hnumber
    simp [hgroups, readGivenChar_eq_none hcolon] at hread
  | some p =>
    obtain ⟨n, text'⟩ := p
    obtain ⟨digits, rfl, hdigits, -⟩ := readNumber_eq_some_iff.mp hnumber
    have hsegment : (UInt16.ofNat n).toNat = n := UInt16.toNat_ofNat_of_lt' hdigits.lt
    obtain ⟨groups, ipv4, rest', hrest⟩ :
        ∃ groups ipv4 rest', readGroups 1 7 text' = (groups, ipv4, rest') := ⟨_, _, _, rfl⟩
    have hgroup := @readGroups_eq_cons 0 7 (.ofNat n) (digits ++ text') text' rest' groups ipv4 hipv4
    rw [hsegment] at hgroup
    rw [hgroup hnumber hrest] at hread
    have hcolon' : text'.head? = some ':' := by
      by_contra hend
      have hlast := @readGroups_eq_nil 1 7 text' (readSeparator_eq_none hend)
        (readSeparator_eq_none hend)
      rw [hrest, Prod.mk.injEq, Prod.mk.injEq] at hlast
      simp [hlast, readGivenChar_eq_none hend] at hread
    obtain ⟨text'', rfl⟩ := List.head?_eq_some_iff.mp hcolon'
    refine ⟨digits, text'', n, rfl, hdigits, ?_⟩
    dsimp only at hread
    split at hread
    . obtain ⟨rfl, -⟩ := Prod.mk.inj (Option.some.inj hread)
      rfl
    . split at hread
      . contradiction
      . split at hread
        . contradiction
        . obtain ⟨rfl, -⟩ := Prod.mk.inj (Option.some.inj hread)
          rfl

end AddrParser

end Rendezvous

end LocalBolt
