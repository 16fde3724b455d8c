import LocalBolt.Rendezvous.Impl.ClientIp
import LocalBolt.Rendezvous.Lemmas.IpAddr

/-!
This module contains the private networks, and which addresses the test of a text for a private address
takes for one of them.
-/

namespace LocalBolt

namespace Rendezvous

open AddrParser

/-! ### Networks -/

def Ipv4Addr.toBits (addr : Ipv4Addr) : Nat := Numeral.value 256 (addr.octets.map UInt8.toNat)

def Ipv6Addr.toBits (addr : Ipv6Addr) : Nat := Numeral.value 65536 (addr.segments.map UInt16.toNat)

structure Network where
  address : IpAddr
  prefixLength : Nat

def Network.Contains (network : Network) (addr : IpAddr) : Prop :=
  match network.address, addr with
  | .v4 address, .v4 addr =>
    addr.toBits / 2 ^ (32 - network.prefixLength) = address.toBits / 2 ^ (32 - network.prefixLength)
  | .v6 address, .v6 addr =>
    addr.toBits / 2 ^ (128 - network.prefixLength) = address.toBits / 2 ^ (128 - network.prefixLength)
  | _, _ => False

def privateNetworks : List Network := [
  ⟨.v4 ⟨[127, 0, 0, 0], rfl⟩, 8⟩,
  ⟨.v4 ⟨[10, 0, 0, 0], rfl⟩, 8⟩,
  ⟨.v4 ⟨[172, 16, 0, 0], rfl⟩, 12⟩,
  ⟨.v4 ⟨[192, 168, 0, 0], rfl⟩, 16⟩,
  ⟨.v4 ⟨[169, 254, 0, 0], rfl⟩, 16⟩,
  ⟨.v4 ⟨[100, 64, 0, 0], rfl⟩, 10⟩,
  ⟨.v6 ⟨[0, 0, 0, 0, 0, 0, 0, 1], rfl⟩, 128⟩,
  ⟨.v6 ⟨[0xfc00, 0, 0, 0, 0, 0, 0, 0], rfl⟩, 7⟩,
  ⟨.v6 ⟨[0xfe80, 0, 0, 0, 0, 0, 0, 0], rfl⟩, 10⟩]

def IsPrivate (addr : IpAddr) : Prop := ∃ network ∈ privateNetworks, network.Contains addr

theorem Ipv4Addr.toBits_div {addr : Ipv4Addr} {a b c d : UInt8} (h : addr.octets = [a, b, c, d])
    (k : Nat) : addr.toBits / 2 ^ (16 + k) = (a.toNat * 256 + b.toNat) / 2 ^ k := by
  have hlast : ∀ digit ∈ [c.toNat, d.toNat], digit < 256 := by
    simp [c.toNat_lt, d.toNat_lt]
  have hdiv := Numeral.value_append_div hlast [a.toNat, b.toNat]
  have hvalue : Numeral.value 256 [a.toNat, b.toNat] = a.toNat * 256 + b.toNat := by
    simp [Numeral.value]
  have hpow : 256 ^ [c.toNat, d.toNat].length = 2 ^ 16 := by simp
  rw [hpow, hvalue] at hdiv
  rw [Ipv4Addr.toBits, h, Nat.pow_add, ← Nat.div_div_eq_div_mul]
  exact congrArg (· / 2 ^ k) hdiv

theorem contains_v4_iff {addr : Ipv4Addr} {a b c d : UInt8} (h : addr.octets = [a, b, c, d])
    {a' b' c' d' : UInt8} (k n : Nat) (hn : (a'.toNat * 256 + b'.toNat) / 2 ^ k = n)
    : addr.toBits / 2 ^ (16 + k) = (Ipv4Addr.mk [a', b', c', d'] rfl).toBits / 2 ^ (16 + k)
        ↔
      (a.toNat * 256 + b.toNat) / 2 ^ k = n := by
  rw [addr.toBits_div h, Ipv4Addr.toBits_div rfl, hn]

theorem isPrivate_v4_iff {addr : Ipv4Addr} {a b c d : UInt8} (h : addr.octets = [a, b, c, d])
    : IsPrivate (.v4 addr)
        ↔
      a.toNat = 127 ∨ a.toNat = 10 ∨ (a.toNat = 172 ∧ 16 ≤ b.toNat ∧ b.toNat ≤ 31)
        ∨ (a.toNat = 192 ∧ b.toNat = 168) ∨ (a.toNat = 169 ∧ b.toNat = 254)
        ∨ (a.toNat = 100 ∧ 64 ≤ b.toNat ∧ b.toNat ≤ 127) := by
  have hb := b.toNat_lt
  have hloopback : Network.Contains ⟨.v4 ⟨[127, 0, 0, 0], rfl⟩, 8⟩ (.v4 addr)
      ↔ a.toNat = 127 := by
    refine (contains_v4_iff h 8 127 (by rfl)).trans ?_
    omega
  have hten : Network.Contains ⟨.v4 ⟨[10, 0, 0, 0], rfl⟩, 8⟩ (.v4 addr)
      ↔ a.toNat = 10 := by
    refine (contains_v4_iff h 8 10 (by rfl)).trans ?_
    omega
  have htwelve : Network.Contains ⟨.v4 ⟨[172, 16, 0, 0], rfl⟩, 12⟩ (.v4 addr)
      ↔ a.toNat = 172 ∧ 16 ≤ b.toNat ∧ b.toNat ≤ 31 := by
    refine (contains_v4_iff h 4 2753 (by rfl)).trans ?_
    omega
  have hsixteen : Network.Contains ⟨.v4 ⟨[192, 168, 0, 0], rfl⟩, 16⟩ (.v4 addr)
      ↔ a.toNat = 192 ∧ b.toNat = 168 := by
    refine (contains_v4_iff h 0 49320 (by rfl)).trans ?_
    omega
  have hlink : Network.Contains ⟨.v4 ⟨[169, 254, 0, 0], rfl⟩, 16⟩ (.v4 addr)
      ↔ a.toNat = 169 ∧ b.toNat = 254 := by
    refine (contains_v4_iff h 0 43518 (by rfl)).trans ?_
    omega
  have hshared : Network.Contains ⟨.v4 ⟨[100, 64, 0, 0], rfl⟩, 10⟩ (.v4 addr)
      ↔ a.toNat = 100 ∧ 64 ≤ b.toNat ∧ b.toNat ≤ 127 := by
    refine (contains_v4_iff h 6 401 (by rfl)).trans ?_
    omega
  simp only [IsPrivate, privateNetworks, List.mem_cons, List.not_mem_nil, or_false, exists_eq_or_imp,
    exists_eq_left, hloopback, hten, htwelve, hsixteen, hlink, hshared]
  simp only [Network.Contains, or_false]

theorem octets_eq (addr : Ipv4Addr) : ∃ a b c d, addr.octets = [a, b, c, d] := by
  obtain ⟨octets, hlength⟩ := addr
  match octets, hlength with
  | [a, b, c, d], _ => exact ⟨a, b, c, d, rfl⟩

theorem first_of_loopback {addr : Ipv4Addr} {a b c d : UInt8} (h : addr.octets = [a, b, c, d])
    (hloopback : addr.octets = [127, 0, 0, 1]) : a.toNat = 127 := by
  rw [h] at hloopback
  rw [(List.cons.inj hloopback).1]
  rfl

theorem segments_eq (addr : Ipv6Addr) : ∃ a b c d e f g h, addr.segments = [a, b, c, d, e, f, g, h] := by
  obtain ⟨segments, hlength⟩ := addr
  match segments, hlength with
  | [a, b, c, d, e, f, g, h], _ => exact ⟨a, b, c, d, e, f, g, h, rfl⟩

theorem Ipv6Addr.toBits_div {addr : Ipv6Addr} {first : UInt16} (hfirst : addr.segments.head? = some first)
    (k : Nat) : addr.toBits / 2 ^ (112 + k) = first.toNat / 2 ^ k := by
  obtain ⟨rest, hsegments⟩ := List.head?_eq_some_iff.mp hfirst
  have hlength : (rest.map UInt16.toNat).length = 7 := by
    have hall := addr.length_segments
    rw [hsegments] at hall
    rw [List.length_map]
    exact Nat.succ.inj hall
  have hrest : ∀ digit ∈ rest.map UInt16.toNat, digit < 65536 := by
    intro digit hdigit
    obtain ⟨segment, -, rfl⟩ := List.mem_map.mp hdigit
    exact segment.toNat_lt
  have hdiv := Numeral.value_append_div hrest [first.toNat]
  have hpow : 65536 ^ (rest.map UInt16.toNat).length = 2 ^ 112 := by
    rw [hlength]
    rfl
  have hvalue : Numeral.value 65536 [first.toNat] = first.toNat := by simp [Numeral.value]
  rw [hpow, hvalue] at hdiv
  rw [Ipv6Addr.toBits, hsegments, List.map_cons, Nat.pow_add, ← Nat.div_div_eq_div_mul,
    ← List.singleton_append, hdiv]

theorem Ipv6Addr.toBits_injective : Function.Injective Ipv6Addr.toBits := by
  intro addr addr' heq
  have hlt : ∀ {segments : List UInt16}, ∀ digit ∈ segments.map UInt16.toNat, digit < 65536 := by
    intro segments digit hdigit
    obtain ⟨segment, -, rfl⟩ := List.mem_map.mp hdigit
    exact segment.toNat_lt
  have hlength : (addr.segments.map UInt16.toNat).length = (addr'.segments.map UInt16.toNat).length := by
    rw [List.length_map, List.length_map, addr.length_segments, addr'.length_segments]
  have hdigits := Numeral.value_injective hlt hlt hlength heq
  have hsegments := List.map_injective_iff.mpr (fun _ _ => UInt16.toNat_inj.mp) hdigits
  cases addr
  cases addr'
  simpa using hsegments

theorem isPrivate_v6_iff {addr : Ipv6Addr} {first : UInt16} (hfirst : addr.segments.head? = some first)
    : IsPrivate (.v6 addr)
        ↔
      addr.segments = [0, 0, 0, 0, 0, 0, 0, 1] ∨ first.toNat / 512 = 126 ∨ first.toNat / 64 = 1018 := by
  have hloopback : Network.Contains ⟨.v6 ⟨[0, 0, 0, 0, 0, 0, 0, 1], rfl⟩, 128⟩ (.v6 addr)
      ↔ addr.segments = [0, 0, 0, 0, 0, 0, 0, 1] := by
    have hsame := Ipv6Addr.toBits_injective.eq_iff (a := addr) (b := ⟨[0, 0, 0, 0, 0, 0, 0, 1], rfl⟩)
    cases addr
    simpa [Network.Contains] using hsame
  have hunique : Network.Contains ⟨.v6 ⟨[0xfc00, 0, 0, 0, 0, 0, 0, 0], rfl⟩, 7⟩ (.v6 addr)
      ↔ first.toNat / 512 = 126 := by
    have hprefix := @Ipv6Addr.toBits_div ⟨[0xfc00, 0, 0, 0, 0, 0, 0, 0], rfl⟩ 0xfc00 (by rfl) 9
    exact Eq.congr (Ipv6Addr.toBits_div hfirst 9) hprefix
  have hlink : Network.Contains ⟨.v6 ⟨[0xfe80, 0, 0, 0, 0, 0, 0, 0], rfl⟩, 10⟩ (.v6 addr)
      ↔ first.toNat / 64 = 1018 := by
    have hprefix := @Ipv6Addr.toBits_div ⟨[0xfe80, 0, 0, 0, 0, 0, 0, 0], rfl⟩ 0xfe80 (by rfl) 6
    exact Eq.congr (Ipv6Addr.toBits_div hfirst 6) hprefix
  simp only [IsPrivate, privateNetworks, List.mem_cons, List.not_mem_nil, or_false, exists_eq_or_imp,
    exists_eq_left, hloopback, hunique, hlink]
  simp [Network.Contains]

/-! ### IPv4 -/

theorem startsWith_eq_true_iff {text pattern : String} :
    startsWith text pattern = true ↔ pattern.toList <+: text.toList := by
  exact List.isPrefixOf_iff_prefix

theorem octetText_isHex (octet : UInt8) : ∀ c ∈ octetText octet, (toDigit 16 c).isSome = true := by
  intro c hc
  have hnumber : IsNumber 10 3 256 false (octetText octet) octet.toNat :=
    isNumber_toDigits (by decide) (by decide) (by decide) (by decide) false octet.toNat_lt
  exact isSome_toDigit_hex (hnumber.isDigit c hc)

theorem octetText_injective : Function.Injective octetText := by
  intro octet octet' heq
  have hvalue := congrArg (fun digits => Nat.ofDigitChars 10 digits 0) heq
  simp only [octetText, Nat.ofDigitChars_toDigits (by decide : 1 < 10) (by decide)] at hvalue
  exact UInt8.toNat_inj.mp hvalue

theorem prefix_dot_iff {octet octet' : UInt8} {rest rest' : List Char}
    : octetText octet ++ '.' :: rest <+: octetText octet' ++ '.' :: rest'
        ↔
      octet = octet' ∧ rest <+: rest' := by
  constructor
  . rintro ⟨more, hmore⟩
    rw [List.append_assoc, List.cons_append] at hmore
    obtain ⟨hoctet, -, hrest⟩ := digits_unique hmore (octetText_isHex octet) (octetText_isHex octet')
      (by rfl) (by rfl)
    exact ⟨octetText_injective hoctet, more, hrest⟩
  . rintro ⟨rfl, more, rfl⟩
    exact ⟨more, by rw [List.append_assoc, List.cons_append]⟩

theorem toList_display_v4 {addr : Ipv4Addr} {a b c d : UInt8} (h : addr.octets = [a, b, c, d])
    : addr.display.toList = octetText a ++ '.' :: (octetText b ++ '.'
        :: (octetText c ++ '.' :: octetText d)) := by
  rw [addr.toList_display, h]
  simp

theorem parseU8_octetText (octet : UInt8) : parseU8 (octetText octet) = some octet.toNat := by
  have hdigits : ∀ c ∈ octetText octet, c.isDigit = true := by
    intro c hc
    exact Nat.isDigit_of_mem_toDigits (by decide) (by decide) hc
  have hne : octetText octet ≠ [] := Nat.toDigits_ne_nil
  have hsign : (octetText octet).head? ≠ some '+' := by
    intro hplus
    exact absurd (hdigits '+' (List.mem_of_head? hplus)) (by decide)
  have hvalue : (octetText octet).foldl (fun n c => n * 10 + (c.toNat - '0'.toNat)) 0 = octet.toNat := by
    have hcore := Nat.ofDigitChars_toDigits (n := octet.toNat) (by decide : 1 < 10) (by decide)
    rw [Nat.ofDigitChars_eq_foldl] at hcore
    simp only [Nat.mul_comm 10] at hcore
    exact hcore
  have hall : (octetText octet).all Char.isDigit = true := List.all_eq_true.mpr hdigits
  have hlt := octet.toNat_lt
  unfold parseU8
  simp only [if_neg hsign, hvalue, hall]
  simp [hlt, hne]

section

variable {addr : Ipv4Addr} {a b c d : UInt8} (h : addr.octets = [a, b, c, d])

include h

theorem startsWith_octet {n : UInt8} {pattern : String}
    (hpattern : pattern.toList = octetText n ++ ['.'])
    : startsWith addr.display pattern = true ↔ a.toNat = n.toNat := by
  rw [startsWith_eq_true_iff, toList_display_v4 h, hpattern, prefix_dot_iff, UInt8.toNat_inj, eq_comm]
  simp

theorem startsWith_octets {n m : UInt8} {pattern : String}
    (hpattern : pattern.toList = octetText n ++ '.' :: (octetText m ++ ['.']))
    : startsWith addr.display pattern = true ↔ a.toNat = n.toNat ∧ b.toNat = m.toNat := by
  rw [startsWith_eq_true_iff, toList_display_v4 h, hpattern, prefix_dot_iff, prefix_dot_iff,
    UInt8.toNat_inj, UInt8.toNat_inj, eq_comm, eq_comm (a := m)]
  simp

theorem secondOctetIn_display (low high : Nat)
    : secondOctetIn low high addr.display = true ↔ low ≤ b.toNat ∧ b.toNat ≤ high := by
  have hdot : ∀ part ∈ [a, b, c, d].map octetText, '.' ∉ part := by
    intro part hpart hmem
    obtain ⟨octet, -, rfl⟩ := List.mem_map.mp hpart
    exact absurd (octetText_isHex octet '.' hmem) (by decide)
  have hsplit := List.splitOn_intercalate '.' hdot (by simp)
  rw [← h, ← addr.toList_display, h] at hsplit
  unfold secondOctetIn
  simp [hsplit, parseU8_octetText]

theorem display_eq_cons : ∃ c rest, addr.display.toList = c :: rest ∧ c.isDigit = true := by
  cases htext : octetText a with
  | nil => exact absurd htext Nat.toDigits_ne_nil
  | cons c digits =>
    have hc : c ∈ octetText a := by
      rw [htext]
      apply List.mem_cons_self
    have hdisplay := toList_display_v4 h
    rw [htext, List.cons_append] at hdisplay
    exact ⟨c, _, hdisplay, Nat.isDigit_of_mem_toDigits (by decide) (by decide) hc⟩

theorem not_startsWith_letter {pattern : String} {c : Char}
    (hpattern : pattern.toList.head? = some c) (hc : c.isDigit = false)
    : ¬ startsWith addr.display pattern = true := by
  obtain ⟨first, rest, htext, hfirst⟩ := display_eq_cons h
  obtain ⟨pattern', hpattern⟩ := List.head?_eq_some_iff.mp hpattern
  rw [startsWith_eq_true_iff, htext, hpattern, List.cons_prefix_cons]
  rintro ⟨rfl, -⟩
  rw [hfirst] at hc
  contradiction

theorem isPrivateIp_v4_iff
    : isPrivateIp addr.display = true
        ↔
      addr.octets = [127, 0, 0, 1] ∨ a.toNat = 10 ∨ (a.toNat = 192 ∧ b.toNat = 168)
        ∨ (a.toNat = 169 ∧ b.toNat = 254) ∨ (a.toNat = 172 ∧ 16 ≤ b.toNat ∧ b.toNat ≤ 31)
        ∨ (a.toNat = 100 ∧ 64 ≤ b.toNat ∧ b.toNat ≤ 127) := by
  have hloopback : addr.display = "127.0.0.1" ↔ addr.octets = [127, 0, 0, 1] := by
    have htext : (IpAddr.v4 ⟨[127, 0, 0, 1], rfl⟩).display = "127.0.0.1" := by decide
    have hsame := display_injective.eq_iff (a := .v4 addr) (b := .v4 ⟨[127, 0, 0, 1], rfl⟩)
    rw [htext] at hsame
    cases addr
    simpa [IpAddr.display] using hsame
  have hipv6 : addr.display ≠ "::1" := by
    intro heq
    apply not_startsWith_letter h (by rfl : "::1".toList.head? = some ':') (by decide)
    rw [heq]
    decide
  have hfc := not_startsWith_letter h (by rfl : "fc".toList.head? = some 'f') (by decide)
  have hfd := not_startsWith_letter h (by rfl : "fd".toList.head? = some 'f') (by decide)
  have hfe := not_startsWith_letter h (by rfl : "fe80".toList.head? = some 'f') (by decide)
  have h10 := startsWith_octet h (by rfl : "10.".toList = octetText 10 ++ ['.'])
  have h172 := startsWith_octet h (by rfl : "172.".toList = octetText 172 ++ ['.'])
  have h100 := startsWith_octet h (by rfl : "100.".toList = octetText 100 ++ ['.'])
  have h192 := startsWith_octets h
    (by rfl : "192.168.".toList = octetText 192 ++ '.' :: (octetText 168 ++ ['.']))
  have h169 := startsWith_octets h
    (by rfl : "169.254.".toList = octetText 169 ++ '.' :: (octetText 254 ++ ['.']))
  unfold isPrivateIp
  simp only [Bool.or_eq_true, Bool.and_eq_true, decide_eq_true_eq, hloopback, hipv6, hfc, hfd, hfe, h10,
    h172, h100, h192, h169, secondOctetIn_display h, Bool.false_eq_true, or_false, or_assoc]
  rfl

end

/-! ### IPv6 -/

/--
The prefixes by which an IPv6 address is taken to be unique local or link-local.
-/
def startsLocal (text : String) : Bool :=
  (startsWith text "fc" || startsWith text "fd") || startsWith text "fe80"

theorem prefix_digits {pattern more digits rest : List Char}
    (h : pattern ++ more = digits ++ ':' :: rest)
    (hpattern : ∀ c ∈ pattern, (toDigit 16 c).isSome = true)
    : ∃ more', digits = pattern ++ more' := by
  rcases List.append_eq_append_iff.mp h with ⟨more', hdigits, -⟩ | ⟨rest', rfl, hrest⟩
  . exact ⟨more', hdigits⟩
  . cases rest' with
    | nil => exact ⟨[], by simp⟩
    | cons c rest' =>
      obtain ⟨rfl, -⟩ := List.cons.inj hrest
      exact absurd (hpattern ':' (by simp)) (by decide)

section

variable {text : String} {addr : Ipv6Addr} (h : IpAddr.parse text = some (.v6 addr))

include h

theorem first_segment
    : text.toList.head? = some ':' ∨ ∃ digits rest n, text.toList = digits ++ ':' :: rest
        ∧ IsNumber 16 4 65536 true digits n ∧ addr.segments.head? = some (.ofNat n) := by
  obtain ⟨hipv4, hipv6⟩ := read_of_parse_v6 h
  by_cases hcolon : text.toList.head? = some ':'
  . exact .inl hcolon
  . exact .inr (readIpv6Addr_first hcolon hipv4 hipv6)

theorem ne_dotted {digits rest : List Char}
    (hdigits : (digits.all fun c => (toDigit 16 c).isSome) = true)
    : text.toList ≠ digits ++ '.' :: rest := by
  rw [List.all_eq_true] at hdigits
  intro heq
  rcases first_segment h with hcolon | ⟨digits', rest', n, htext, hnumber, -⟩
  . cases digits with
    | nil =>
      rw [heq] at hcolon
      exact absurd (Option.some.inj hcolon) (by decide)
    | cons c digits =>
      rw [heq] at hcolon
      obtain rfl := Option.some.inj hcolon
      exact absurd (hdigits ':' (List.mem_cons_self ..)) (by decide)
  . obtain ⟨-, hdot, -⟩ := digits_unique (heq.symm.trans htext) hdigits hnumber.isDigit (by rfl) (by rfl)
    contradiction

theorem not_startsWith_dotted {pattern : String} {digits rest : List Char}
    (hpattern : pattern.toList = digits ++ '.' :: rest)
    (hdigits : (digits.all fun c => (toDigit 16 c).isSome) = true)
    : ¬ startsWith text pattern = true := by
  rw [startsWith_eq_true_iff, hpattern]
  rintro ⟨more, hmore⟩
  rw [List.append_assoc, List.cons_append] at hmore
  exact ne_dotted h hdigits hmore.symm

theorem isPrivateIp_v6_iff : isPrivateIp text = true ↔ text = "::1" ∨ startsLocal text = true := by
  have hloopback : text ≠ "127.0.0.1" := by
    rintro rfl
    exact ne_dotted h (by decide) (by rfl : "127.0.0.1".toList = "127".toList ++ '.' :: "0.0.1".toList)
  have h10 := not_startsWith_dotted h (by rfl : "10.".toList = "10".toList ++ '.' :: []) (by decide)
  have h172 := not_startsWith_dotted h (by rfl : "172.".toList = "172".toList ++ '.' :: []) (by decide)
  have h100 := not_startsWith_dotted h (by rfl : "100.".toList = "100".toList ++ '.' :: []) (by decide)
  have h192 := not_startsWith_dotted h
    (by rfl : "192.168.".toList = "192".toList ++ '.' :: "168.".toList) (by decide)
  have h169 := not_startsWith_dotted h
    (by rfl : "169.254.".toList = "169".toList ++ '.' :: "254.".toList) (by decide)
  unfold isPrivateIp startsLocal
  simp only [Bool.or_eq_true, Bool.and_eq_true, decide_eq_true_eq, hloopback, h10, h172, h100, h192, h169,
    Bool.false_eq_true, false_or, false_and, or_assoc]

theorem segment_of_startsWith {pattern : String} {first : UInt16}
    (hfirst : addr.segments.head? = some first) (hne : pattern.toList ≠ [])
    (hdigits : (pattern.toList.all fun c => (toDigit 16 c).isSome) = true)
    (hstarts : startsWith text pattern = true)
    : ∃ k, k + pattern.toList.length ≤ 4
        ∧ first.toNat / 16 ^ k = Numeral.value 16 (pattern.toList.filterMap (toDigit 16)) := by
  rw [List.all_eq_true] at hdigits
  rw [startsWith_eq_true_iff] at hstarts
  obtain ⟨more, hmore⟩ := hstarts
  rcases first_segment h with hcolon | ⟨digits, rest, n, htext, hnumber, hsegment⟩
  . rw [← hmore, List.head?_append_of_ne_nil _ hne] at hcolon
    exact absurd (hdigits ':' (List.mem_of_head? hcolon)) (by decide)
  . rw [hfirst] at hsegment
    obtain rfl := Option.some.inj hsegment
    rw [UInt16.toNat_ofNat_of_lt' hnumber.lt]
    obtain ⟨more', rfl⟩ := prefix_digits (hmore.trans htext) hdigits
    refine ⟨(more'.filterMap (toDigit 16)).length, ?_, ?_⟩
    . have hle := hnumber.length_le
      have hmore' := List.length_filterMap_le (toDigit 16) more'
      rw [List.length_append] at hle
      omega
    . rw [← hnumber.value, List.filterMap_append]
      apply Numeral.value_append_div
      intro digit hdigit
      obtain ⟨c, -, hc⟩ := List.mem_filterMap.mp hdigit
      exact toDigit_lt hc

end

theorem groupText_prefix_display {addr : Ipv6Addr} {first : UInt16}
    (hfirst : addr.segments.head? = some first) (hne : first ≠ 0) :
    groupText first <+: addr.display.toList := by
  cases hmapped : addr.toIpv4Mapped with
  | some ipv4 =>
    obtain ⟨one, two, three, four, -, hsegments⟩ := Ipv6Addr.display_of_mapped hmapped
    rw [hsegments] at hfirst
    exact absurd (Option.some.inj hfirst).symm hne
  | none =>
    rcases Ipv6Addr.display_of_not_mapped hmapped with
      hdisplay | ⟨before, after, len, hlen, hsegments, hdisplay⟩
    . obtain ⟨segments, hsegments⟩ := List.head?_eq_some_iff.mp hfirst
      rw [hdisplay, hsegments, List.map_cons, intercalate_cons]
      apply List.prefix_append
    . cases before with
      | nil =>
        obtain ⟨len, rfl⟩ := Nat.exists_eq_succ_of_ne_zero (Nat.ne_zero_of_lt hlen)
        rw [hsegments] at hfirst
        exact absurd (Option.some.inj hfirst).symm hne
      | cons segment before =>
        rw [hsegments] at hfirst
        obtain rfl := Option.some.inj hfirst
        rw [hdisplay, List.map_cons, intercalate_cons, List.append_assoc]
        apply List.prefix_append

theorem startsWith_of_div {addr : Ipv6Addr} {first : UInt16} (hfirst : addr.segments.head? = some first)
    {pattern : String} {q k : Nat} (hpattern : pattern.toList = Nat.toDigits 16 q) (hpos : 0 < q)
    (hdiv : first.toNat / 16 ^ k = q) : startsWith addr.display pattern = true := by
  have hne : first ≠ 0 := by
    rintro rfl
    simp at hdiv
    omega
  have hleading : Nat.toDigits 16 (first.toNat / 16 ^ k) <+: Nat.toDigits 16 first.toNat :=
    Numeral.toDigits_prefix_of_div (by decide) first.toNat k (hdiv ▸ hpos)
  rw [startsWith_eq_true_iff, hpattern, ← hdiv]
  exact hleading.trans (groupText_prefix_display hfirst hne)

theorem startsWith_two_iff {addr : Ipv6Addr} {first : UInt16}
    (hfirst : addr.segments.head? = some first) {pattern : String} {q : Nat}
    (hpattern : pattern.toList = Nat.toDigits 16 q) (hlength : pattern.toList.length = 2)
    (hvalue : Numeral.value 16 (pattern.toList.filterMap (toDigit 16)) = q)
    (hdigits : (pattern.toList.all fun c => (toDigit 16 c).isSome) = true) (hpos : 0 < q)
    : startsWith addr.display pattern = true
        ↔
      first.toNat = q ∨ first.toNat / 16 = q ∨ first.toNat / 256 = q := by
  have hne : pattern.toList ≠ [] := by
    intro hnil
    rw [hnil] at hlength
    contradiction
  constructor
  . intro hstarts
    obtain ⟨k, hk, hdiv⟩ := segment_of_startsWith (parse_display (.v6 addr)) hfirst hne hdigits hstarts
    rw [hvalue] at hdiv
    rw [hlength] at hk
    match k, hk with
    | 0, _ => simp_all
    | 1, _ => simp_all
    | 2, _ => simp_all
  . rintro (hdiv | hdiv | hdiv)
    . exact startsWith_of_div hfirst hpattern hpos (k := 0) (by simpa using hdiv)
    . exact startsWith_of_div hfirst hpattern hpos (k := 1) hdiv
    . exact startsWith_of_div hfirst hpattern hpos (k := 2) hdiv

theorem startsLocal_display_iff {addr : Ipv6Addr} {first : UInt16}
    (hfirst : addr.segments.head? = some first)
    : startsLocal addr.display = true
        ↔
      (first.toNat = 252 ∨ first.toNat / 16 = 252 ∨ first.toNat / 256 = 252)
        ∨ (first.toNat = 253 ∨ first.toNat / 16 = 253 ∨ first.toNat / 256 = 253)
        ∨ first.toNat = 0xfe80 := by
  have hfc := startsWith_two_iff hfirst (by decide : "fc".toList = Nat.toDigits 16 252) (by decide)
    (by decide) (by decide) (by decide)
  have hfd := startsWith_two_iff hfirst (by decide : "fd".toList = Nat.toDigits 16 253) (by decide)
    (by decide) (by decide) (by decide)
  have hfe : startsWith addr.display "fe80" = true ↔ first.toNat = 0xfe80 := by
    constructor
    . intro hstarts
      obtain ⟨k, hk, hdiv⟩ := segment_of_startsWith (parse_display (.v6 addr)) hfirst (by decide)
        (by decide) hstarts
      obtain rfl : k = 0 := Nat.eq_zero_of_le_zero (Nat.le_of_add_le_add_right hk)
      rw [Nat.pow_zero, Nat.div_one] at hdiv
      exact hdiv
    . intro heq
      exact startsWith_of_div hfirst (by decide : "fe80".toList = Nat.toDigits 16 0xfe80) (by decide)
        (k := 0) (by simpa using heq)
  unfold startsLocal
  simp only [Bool.or_eq_true, hfc, hfd, hfe, or_assoc]

/-! ### All addresses -/

/--
The addresses for which the test of the canonical text is wrong: of `127.0.0.0/8` it knows one address
only, of `fe80::/10` it knows the first group `fe80` only, and it takes a first group of two or three
digits for one of `fc00::/7` if it begins like these.
-/
def Misjudged : IpAddr → Prop
  | .v4 addr => addr.octets.head? = some 127 ∧ addr.octets ≠ [127, 0, 0, 1]
  | .v6 addr => ∃ first ∈ addr.segments.head?,
    (first.toNat / 2 ^ 6 = 0xfe80 / 2 ^ 6 ∧ first ≠ 0xfe80)
      ∨ first.toNat ∈ [0xfc, 0xfd] ∨ first.toNat / 16 ∈ [0xfc, 0xfd]

theorem is_private_ip_iff (addr : IpAddr)
    : (isPrivateIp addr.display = true ↔ IsPrivate addr) ↔ ¬ Misjudged addr := by
  cases addr with
  | v4 addr =>
    obtain ⟨a, b, c, d, hoctets⟩ := octets_eq addr
    have hfirst : addr.octets.head? = some 127 ↔ a.toNat = 127 := by
      rw [hoctets, List.head?_cons, Option.some.injEq, ← UInt8.toNat_inj]
      rfl
    rw [IpAddr.display, isPrivateIp_v4_iff hoctets, isPrivate_v4_iff hoctets, Misjudged, hfirst]
    by_cases heq : addr.octets = [127, 0, 0, 1]
    . simp [heq, first_of_loopback hoctets heq]
    . simp only [heq, false_or, ne_eq, not_false_eq_true, and_true]
      omega
  | v6 addr =>
    obtain ⟨a, b, c, d, e, f, g, h, hsegments⟩ := segments_eq addr
    have hfirst : addr.segments.head? = some a := by rw [hsegments, List.head?_cons]
    have hloopback : addr.display = "::1" ↔ addr.segments = [0, 0, 0, 0, 0, 0, 0, 1] := by
      have htext : (IpAddr.v6 ⟨[0, 0, 0, 0, 0, 0, 0, 1], rfl⟩).display = "::1" := by decide
      have hsame := display_injective.eq_iff (a := .v6 addr) (b := .v6 ⟨[0, 0, 0, 0, 0, 0, 0, 1], rfl⟩)
      rw [htext] at hsame
      cases addr
      simpa [IpAddr.display] using hsame
    have hzero : addr.segments = [0, 0, 0, 0, 0, 0, 0, 1] → a.toNat = 0 := by
      intro heq
      rw [hsegments] at heq
      rw [(List.cons.inj heq).1]
      rfl
    have hmisjudged : Misjudged (.v6 addr) ↔ (a.toNat / 64 = 1018 ∧ a.toNat ≠ 0xfe80)
        ∨ (a.toNat = 252 ∨ a.toNat = 253) ∨ a.toNat / 16 = 252 ∨ a.toNat / 16 = 253 := by
      rw [Misjudged, hfirst]
      simp only [Option.mem_def, Option.some.injEq, exists_eq_left']
      simp [← UInt16.toNat_inj]
    have hprivate : isPrivateIp addr.display = true
        ↔ addr.display = "::1" ∨ startsLocal addr.display = true :=
      isPrivateIp_v6_iff (parse_display (.v6 addr))
    rw [IpAddr.display, hprivate, startsLocal_display_iff hfirst, isPrivate_v6_iff hfirst, hloopback,
      hmisjudged]
    by_cases heq : addr.segments = [0, 0, 0, 0, 0, 0, 0, 1]
    . have hzero := hzero heq
      simp [heq, hzero]
    . simp only [heq, false_or]
      omega

/--
Loopback addresses other than `127.0.0.1` are not recognised.
-/
theorem loopback_taken_for_public
    : let addr := IpAddr.v4 ⟨[127, 0, 0, 2], rfl⟩
      ¬ (isPrivateIp addr.display = true ↔ IsPrivate addr) := by
  intro addr hiff
  have hprivate : IsPrivate addr := (isPrivate_v4_iff (by rfl)).mpr (.inl (by rfl))
  exact absurd (hiff.mpr hprivate) (by decide)

end Rendezvous

end LocalBolt
