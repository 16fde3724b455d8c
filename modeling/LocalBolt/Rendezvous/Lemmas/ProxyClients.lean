import Mathlib.Data.List.TakeWhile
import LocalBolt.Framing.Basic
import LocalBolt.Rendezvous.Lemmas.RoomKey

/-!
This module contains which `X-Forwarded-For` headers change the room of a client behind a trusted proxy
that appends the address of the client.
-/

namespace LocalBolt

namespace Rendezvous

open AddrParser

/-! ### Header values -/

def isAddressChar (c : Char) : Bool := c = '.' || c = ':' || (toDigit 16 c).isSome

theorem isAddressChar_of_mem_display {addr : IpAddr} {c : Char} (h : c ∈ addr.display.toList) :
    isAddressChar c = true := by
  have hparts : ∀ {parts : List (List Char)} {sep : Char}, isAddressChar sep = true →
      (∀ part ∈ parts, ∀ c ∈ part, (toDigit 16 c).isSome = true) →
      ∀ c ∈ [sep].intercalate parts, isAddressChar c = true := by
    intro parts sep hsep hparts c hc
    rcases Framing.mem_intercalate hc with hc | ⟨part, hpart, hc⟩
    . rw [List.mem_singleton.mp hc]
      exact hsep
    . simp [isAddressChar, hparts part hpart c hc]
  have hv4 : ∀ addr : Ipv4Addr, ∀ c ∈ addr.display.toList, isAddressChar c = true := by
    intro addr
    rw [addr.toList_display]
    apply hparts (by decide)
    intro part hpart
    obtain ⟨octet, -, rfl⟩ := List.mem_map.mp hpart
    exact octetText_isHex octet
  have hgroups : ∀ groups : List UInt16, ∀ c ∈ [':'].intercalate (groups.map groupText),
      isAddressChar c = true := by
    intro groups
    apply hparts (by decide)
    intro part hpart
    obtain ⟨group, -, rfl⟩ := List.mem_map.mp hpart
    exact (isNumber_groupText group).isDigit
  cases addr with
  | v4 addr => exact hv4 addr c h
  | v6 addr =>
    cases hmapped : addr.toIpv4Mapped with
    | some ipv4 =>
      have hdisplay : addr.display = "::ffff:" ++ ipv4.display := by
        unfold Ipv6Addr.display
        rw [hmapped]
      rw [IpAddr.display, hdisplay, String.toList_append, List.mem_append] at h
      rcases h with hc | hc
      . have hmark : "::ffff:".toList.all isAddressChar = true := by decide
        exact List.all_eq_true.mp hmark c hc
      . exact hv4 ipv4 c hc
    | none =>
      rw [IpAddr.display] at h
      rcases Ipv6Addr.display_of_not_mapped hmapped with
        hdisplay | ⟨before, after, len, -, -, hdisplay⟩
      . rw [hdisplay] at h
        exact hgroups _ c h
      . rw [hdisplay] at h
        simp only [List.mem_append, List.mem_cons] at h
        rcases h with hc | rfl | rfl | hc
        . exact hgroups _ c hc
        . decide
        . decide
        . exact hgroups _ c hc

theorem toNat_of_toDigit {radix : Nat} {c : Char} (h : (toDigit radix c).isSome = true) :
    48 ≤ c.toNat ∧ c.toNat ≤ 122 := by
  obtain ⟨digit, hdigit⟩ := Option.isSome_iff_exists.mp h
  unfold toDigit at hdigit
  rw [Option.filter_eq_some_iff] at hdigit
  obtain ⟨hdigit, -⟩ := hdigit
  split at hdigit
  . next hrange =>
    have hlow : 48 ≤ c.toNat := hrange.1
    have hhigh : c.toNat ≤ 57 := hrange.2
    omega
  . split at hdigit
    . next hrange =>
      have hlow : 97 ≤ c.toNat := hrange.1
      have hhigh : c.toNat ≤ 122 := hrange.2
      omega
    . split at hdigit
      . next hrange =>
        have hlow : 65 ≤ c.toNat := hrange.1
        have hhigh : c.toNat ≤ 90 := hrange.2
        omega
      . contradiction

theorem toNat_of_isAddressChar {c : Char} (h : isAddressChar c = true) :
    46 ≤ c.toNat ∧ c.toNat ≤ 122 := by
  unfold isAddressChar at h
  simp only [Bool.or_eq_true, decide_eq_true_eq] at h
  rcases h with (rfl | rfl) | hdigit
  . decide
  . decide
  . have hrange := toNat_of_toDigit hdigit
    omega

theorem isWhitespace_of_isAddressChar {c : Char} (h : isAddressChar c = true) :
    c.isWhitespace = false := by
  obtain ⟨hlow, -⟩ := toNat_of_isAddressChar h
  have hne : ∀ space : Char, space.toNat < 46 → c ≠ space := by
    rintro space hspace rfl
    omega
  have hspace := hne ' ' (by decide)
  have htab := hne '\t' (by decide)
  have hreturn := hne '\r' (by decide)
  have hline := hne '\n' (by decide)
  simp [Char.isWhitespace, hspace, htab, hreturn, hline]

theorem isVisibleAscii_ofNat {c : Char} (hlow : 32 ≤ c.toNat) (hhigh : c.toNat < 127) :
    isVisibleAscii (.ofNat c.toNat) = true ∧ Char.ofNat (UInt8.ofNat c.toNat).toNat = c := by
  have hbyte : (UInt8.ofNat c.toNat).toNat = c.toNat := by
    rw [UInt8.toNat_ofNat']
    exact Nat.mod_eq_of_lt (by omega)
  constructor
  . simp [isVisibleAscii, UInt8.le_iff_toNat_le, UInt8.lt_iff_toNat_lt, hbyte]
    omega
  . rw [hbyte, Char.ofNat_toNat]

theorem bytes_header (text : String) (h : ∀ c ∈ text.toList, 32 ≤ c.toNat ∧ c.toNat < 127)
    : (header text).bytes.all isVisibleAscii = true
        ∧ ((header text).bytes.map fun byte => Char.ofNat byte.toNat) = text.toList := by
  constructor
  . rw [header, List.all_map, List.all_eq_true]
    intro c hc
    exact (isVisibleAscii_ofNat (h c hc).1 (h c hc).2).1
  . rw [header, List.map_map, List.map_congr_left (g := id)]
    . exact List.map_id _
    . intro c hc
      exact (isVisibleAscii_ofNat (h c hc).1 (h c hc).2).2

theorem trim_eq_self {text : List Char} (h : ∀ c ∈ text, c.isWhitespace = false) : trim text = text := by
  have hkept : ∀ {text : List Char}, (∀ c ∈ text, c.isWhitespace = false) →
      text.dropWhile Char.isWhitespace = text := by
    intro text h
    cases text with
    | nil => rfl
    | cons c text => exact List.dropWhile_cons_of_neg (by simp [h c (List.mem_cons_self ..)])
  have hreverse : ∀ c ∈ text.reverse, c.isWhitespace = false := by
    intro c hc
    exact h c (List.mem_reverse.mp hc)
  rw [trim, hkept h, hkept hreverse, List.reverse_reverse]

theorem toStr_append (value : HeaderValue) {bytes : List UInt8}
    (h : bytes.all isVisibleAscii = true)
    : (HeaderValue.mk (value.bytes ++ bytes)).toStr
        =
      value.toStr.map (· ++ bytes.map fun byte => Char.ofNat byte.toNat) := by
  unfold HeaderValue.toStr
  rw [List.all_append, h, Bool.and_true]
  split
  . rw [Option.map_some, List.map_append]
  . rfl

theorem head?_splitOn (sep : Char) (text : List Char) :
    (text.splitOn sep).head? = some (text.takeWhile (· ≠ sep)) := by
  by_cases hmem : sep ∈ text
  . obtain ⟨first, rest, rfl, hfirst⟩ := List.eq_append_cons_of_mem hmem
    have hkept : ∀ c ∈ first, decide (c ≠ sep) = true := by
      intro c hc
      apply decide_eq_true
      rintro rfl
      exact hfirst hc
    rw [List.splitOn_append_cons_self, List.splitOn_eq_singleton hfirst,
      List.takeWhile_append_of_pos hkept, List.takeWhile_cons]
    simp
  . have hkept : text.takeWhile (· ≠ sep) = text := by
      rw [List.takeWhile_eq_self_iff]
      intro c hc
      apply decide_eq_true
      rintro rfl
      exact hmem hc
    rw [List.splitOn_eq_singleton hmem, hkept]
    rfl

theorem takeWhile_append_cons (sep : Char) (text rest : List Char)
    : (text ++ sep :: rest).takeWhile (· ≠ sep) = text.takeWhile (· ≠ sep) := by
  have hhead := head?_splitOn sep (text ++ sep :: rest)
  rw [List.splitOn_append_cons_self, List.head?_append_of_ne_nil _ (List.splitOn_ne_nil sep text),
    head?_splitOn] at hhead
  exact (Option.some.inj hhead).symm

/-! ### Clients -/

/--
The list of addresses in the header begins with this one.
-/
def HeaderValue.Names (value : HeaderValue) (ip : String) : Prop :=
  ∃ text, value.toStr = some text ∧ trim (text.takeWhile (· ≠ ',')) = ip.toList
    ∧ (IpAddr.parse ip).isSome = true

theorem forwardedForXff_eq_some_iff {value : HeaderValue} {ip : String} :
    forwardedForXff (some value) = some ip ↔ value.Names ip := by
  simp only [forwardedForXff, HeaderValue.Names, Option.bind_eq_bind, Option.bind_some,
    Option.bind_eq_some_iff, List.headD_eq_head?_getD, head?_splitOn, Option.getD_some]
  constructor
  . rintro ⟨text, htext, hread⟩
    split at hread
    . next hparse =>
      obtain rfl := Option.some.inj hread
      exact ⟨text, htext, String.toList_ofList.symm, hparse⟩
    . contradiction
  . rintro ⟨text, htext, htrim, hparse⟩
    refine ⟨text, htext, ?_⟩
    rw [htrim, String.ofList_toList, if_pos hparse]

/--
What a proxy forwards that appends the address of the client to the header that the client sent.
-/
def forwardedBy (real : IpAddr) : Option HeaderValue → HeaderValue
  | none => header real.display
  | some value => ⟨value.bytes ++ (header (", " ++ real.display)).bytes⟩

theorem names_forwardedBy_none {real : IpAddr} {ip : String} :
    (forwardedBy real none).Names ip ↔ ip = real.display := by
  have hchars : ∀ c ∈ real.display.toList, isAddressChar c = true := fun _ => isAddressChar_of_mem_display
  obtain ⟨hvisible, hbytes⟩ := bytes_header real.display fun c hc => by
    have hrange := toNat_of_isAddressChar (hchars c hc)
    omega
  have hcomma : ∀ c ∈ real.display.toList, decide (c ≠ ',') = true := by
    intro c hc
    apply decide_eq_true
    rintro rfl
    exact absurd (hchars ',' hc) (by decide)
  have hspace : ∀ c ∈ real.display.toList, c.isWhitespace = false := fun c hc =>
    isWhitespace_of_isAddressChar (hchars c hc)
  have hstr : (header real.display).toStr = some real.display.toList := by
    rw [HeaderValue.toStr, if_pos hvisible, hbytes]
  rw [forwardedBy, HeaderValue.Names, hstr]
  simp only [Option.some.injEq, exists_eq_left', List.takeWhile_eq_self_iff.mpr hcomma,
    trim_eq_self hspace, String.toList_inj]
  constructor
  . rintro ⟨heq, -⟩
    exact heq.symm
  . rintro rfl
    rw [parse_display]
    exact ⟨rfl, rfl⟩

theorem names_forwardedBy_some {real : IpAddr} {value : HeaderValue} {ip : String} :
    (forwardedBy real (some value)).Names ip ↔ value.Names ip := by
  have hchars : (", " ++ real.display).toList = ',' :: ' ' :: real.display.toList := by
    rw [String.toList_append]
    rfl
  obtain ⟨hvisible, hbytes⟩ := bytes_header (", " ++ real.display) fun c hc => by
    rw [hchars] at hc
    rcases List.mem_cons.mp hc with rfl | hc
    . decide
    . rcases List.mem_cons.mp hc with rfl | hc
      . decide
      . have hrange := toNat_of_isAddressChar (isAddressChar_of_mem_display hc)
        omega
  have hstr := toStr_append value hvisible
  rw [hbytes, hchars] at hstr
  rw [forwardedBy, HeaderValue.Names, HeaderValue.Names, hstr]
  simp only [Option.map_eq_some_iff, exists_exists_and_eq_and, takeWhile_append_cons]

/--
What the header says leaves the client in the room of its own address.
-/
structure SpeaksFor (proxy real : IpAddr) (value : HeaderValue) : Prop where
  named : ∀ ip, value.Names ip →
    ip = real.display ∨ (isPrivateIp ip = true ∧ isPrivateIp real.display = true)
  unnamed : (∀ ip, ¬ value.Names ip) →
    proxy = real ∨ (isPrivateIp proxy.display = true ∧ isPrivateIp real.display = true)

theorem clientIp_of_trusted {trustedProxies : List IpAddr} {proxy : IpAddr}
    (htrusted : proxy ∈ trustedProxies) (value : HeaderValue)
    : clientIp trustedProxies proxy ⟨none, some value⟩
        =
      roomOfIp ((forwardedForXff (some value)).getD proxy.display) := by
  have hforwarded : forwardedFor ⟨none, some value⟩ = forwardedForXff (some value) := by rfl
  unfold clientIp
  rw [hforwarded]
  cases forwardedForXff (some value) with
  | none => rfl
  | some ip => rw [rawIp, if_pos htrusted, Option.getD_some]

theorem speaksFor_of_names {proxy real : IpAddr} {value : HeaderValue} {ip : String}
    (h : value.Names ip)
    : SpeaksFor proxy real value
        ↔
      ip = real.display ∨ (isPrivateIp ip = true ∧ isPrivateIp real.display = true) := by
  constructor
  . intro hspeaks
    exact hspeaks.named ip h
  . intro hsame
    refine ⟨?_, fun hnone => absurd h (hnone ip)⟩
    intro ip' h'
    rw [← forwardedForXff_eq_some_iff] at h h'
    rw [h] at h'
    obtain rfl := Option.some.inj h'
    exact hsame

theorem speaksFor_of_not_names {proxy real : IpAddr} {value : HeaderValue}
    (h : ∀ ip, ¬ value.Names ip)
    : SpeaksFor proxy real value
        ↔
      proxy = real ∨ (isPrivateIp proxy.display = true ∧ isPrivateIp real.display = true) := by
  constructor
  . intro hspeaks
    exact hspeaks.unnamed h
  . intro hsame
    exact ⟨fun ip hnames => absurd hnames (h ip), fun _ => hsame⟩

theorem room_of_client_iff {trustedProxies : List IpAddr} {proxy : IpAddr}
    (htrusted : proxy ∈ trustedProxies) (real : IpAddr) (sent : Option HeaderValue)
    : clientIp trustedProxies proxy ⟨none, some (forwardedBy real sent)⟩ = roomOfIp real.display
        ↔
      ∀ value ∈ sent, SpeaksFor proxy real value := by
  rw [clientIp_of_trusted htrusted]
  cases sent with
  | none =>
    have hnames : (forwardedBy real none).Names real.display := names_forwardedBy_none.mpr rfl
    simp [forwardedForXff_eq_some_iff.mpr hnames]
  | some value =>
    have hforwarded : forwardedForXff (some (forwardedBy real (some value)))
        = forwardedForXff (some value) := by
      apply Option.ext
      intro ip
      rw [forwardedForXff_eq_some_iff, forwardedForXff_eq_some_iff, names_forwardedBy_some]
    have hvalue : (∀ value' ∈ some value, SpeaksFor proxy real value') ↔ SpeaksFor proxy real value := by
      simp
    rw [hforwarded, hvalue]
    cases hip : forwardedForXff (some value) with
    | none =>
      have hnames : ∀ ip, ¬ value.Names ip := by
        intro ip hnames
        rw [forwardedForXff_eq_some_iff.mpr hnames] at hip
        contradiction
      have hsame := roomOfIp_eq_iff (.ofAddr proxy) (.ofAddr real)
      rw [speaksFor_of_not_names hnames, ← display_injective.eq_iff]
      exact hsame
    | some ip =>
      obtain ⟨addr, hparse⟩ := Option.isSome_iff_exists.mp (parse_of_forwardedForXff hip)
      rw [speaksFor_of_names (forwardedForXff_eq_some_iff.mp hip)]
      exact roomOfIp_eq_iff ⟨ip, addr, hparse⟩ (.ofAddr real)

theorem room_of_client_named
    : let proxy := IpAddr.v4 ⟨[203, 0, 113, 1], rfl⟩
      let real := IpAddr.v4 ⟨[198, 51, 100, 4], rfl⟩
      clientIp [proxy] proxy ⟨none, some (forwardedBy real (some (header "198.51.100.4")))⟩
        = roomOfIp real.display := by
  intro proxy real
  apply (room_of_client_iff (List.mem_singleton_self proxy) real _).mpr
  intro value hvalue
  obtain rfl := Option.some.inj hvalue
  have hnames : (header "198.51.100.4").Names "198.51.100.4" := forwardedForXff_eq_some_iff.mp (by decide)
  exact (speaksFor_of_names hnames).mpr (.inl (by decide))

/--
The client comes first in the list, so that it may name any address.
-/
theorem room_chosen_by_client
    : let proxy := IpAddr.v4 ⟨[203, 0, 113, 1], rfl⟩
      let real := IpAddr.v4 ⟨[198, 51, 100, 4], rfl⟩
      clientIp [proxy] proxy ⟨none, some (forwardedBy real (some (header "8.8.8.8")))⟩ = "8.8.8.8"
        ∧ clientIp [proxy] proxy ⟨none, some (forwardedBy real none)⟩ = "198.51.100.4"
        ∧ roomOfIp real.display = "198.51.100.4" := by
  decide

end Rendezvous

end LocalBolt
