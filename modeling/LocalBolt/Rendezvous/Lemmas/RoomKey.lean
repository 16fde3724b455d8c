import LocalBolt.Rendezvous.Lemmas.ClientIp
import LocalBolt.Rendezvous.Lemmas.PrivateIp

/-!
This module contains which connections are put into one room: those of one address as it is spelled,
and those of private addresses.
-/

namespace LocalBolt

namespace Rendezvous

/-! ### Spellings -/

/--
A text that the parser accepts, with the address that it denotes.
-/
structure Spelling where
  text : String
  addr : IpAddr
  parse_text : IpAddr.parse text = some addr

def Spelling.ofAddr (addr : IpAddr) : Spelling where
  text := addr.display
  addr := addr
  parse_text := parse_display addr

theorem roomOfIp_eq_iff (s s' : Spelling)
    : roomOfIp s.text = roomOfIp s'.text
        ↔
      s.text = s'.text ∨ (isPrivateIp s.text = true ∧ isPrivateIp s'.text = true) := by
  have hsome : ∀ s : Spelling, (IpAddr.parse s.text).isSome = true := by
    intro s
    rw [s.parse_text]
    rfl
  by_cases hprivate : isPrivateIp s.text = true
  . have hlocal := (roomOfIp_eq_local_iff (hsome s)).mpr hprivate
    rw [hlocal, eq_comm, roomOfIp_eq_local_iff (hsome s')]
    constructor
    . intro hprivate'
      exact .inr ⟨hprivate, hprivate'⟩
    . rintro (heq | ⟨-, hprivate'⟩)
      . rw [← heq]
        exact hprivate
      . exact hprivate'
  . have hpublic : roomOfIp s.text = s.text := if_neg hprivate
    have hnot : ¬ (isPrivateIp s.text = true ∧ isPrivateIp s'.text = true) := fun h => hprivate h.1
    rw [or_iff_left hnot, hpublic]
    constructor
    . intro heq
      by_cases hprivate' : isPrivateIp s'.text = true
      . have hlocal := (roomOfIp_eq_local_iff (hsome s')).mpr hprivate'
        rw [hlocal, ← hpublic] at heq
        exact absurd ((roomOfIp_eq_local_iff (hsome s)).mp heq) hprivate
      . rw [heq]
        exact if_neg hprivate'
    . intro heq
      rw [← heq]
      exact hpublic.symm

namespace Spelling

/--
A first group of two or three digits is taken for the beginning of one of four.
-/
def Misread (s : Spelling) : Prop :=
  (startsWith s.text "fc" = true ∨ startsWith s.text "fd" = true)
    ∧ ∃ addr first, s.addr = .v6 addr ∧ addr.segments.head? = some first ∧ first.toNat < 0x1000

theorem isPrivateIp_of_startsLocal {text : String} (h : startsLocal text = true) :
    isPrivateIp text = true := by
  unfold startsLocal at h
  unfold isPrivateIp
  simp only [Bool.or_eq_true] at h ⊢
  tauto

theorem segment_of_unique_local {text : String} {addr : Ipv6Addr} {first : UInt16}
    (hparse : IpAddr.parse text = some (.v6 addr)) (hfirst : addr.segments.head? = some first)
    (h : startsWith text "fc" = true ∨ startsWith text "fd" = true)
    : ∃ k ≤ 2, first.toNat / 16 ^ k = 252 ∨ first.toNat / 16 ^ k = 253 := by
  rcases h with hstarts | hstarts
  . obtain ⟨k, hk, hdiv⟩ := segment_of_startsWith hparse hfirst (by decide) (by decide) hstarts
    exact ⟨k, Nat.le_of_add_le_add_right hk, .inl hdiv⟩
  . obtain ⟨k, hk, hdiv⟩ := segment_of_startsWith hparse hfirst (by decide) (by decide) hstarts
    exact ⟨k, Nat.le_of_add_le_add_right hk, .inr hdiv⟩

theorem isPrivate_or_misread {s : Spelling} (h : isPrivateIp s.text = true) :
    IsPrivate s.addr ∨ s.Misread := by
  obtain ⟨text, addr, hparse⟩ := s
  dsimp only at h
  cases addr with
  | v4 addr =>
    obtain ⟨a, b, c, d, hoctets⟩ := octets_eq addr
    obtain rfl := parse_eq_v4_iff.mp hparse
    rw [isPrivateIp_v4_iff hoctets] at h
    rw [isPrivate_v4_iff hoctets]
    left
    rcases h with hloopback | h
    . exact .inl (first_of_loopback hoctets hloopback)
    . omega
  | v6 addr =>
    obtain ⟨first, b, c, d, e, f, g, h', hsegments⟩ := segments_eq addr
    have hfirst : addr.segments.head? = some first := by rw [hsegments, List.head?_cons]
    rw [isPrivate_v6_iff hfirst]
    rw [isPrivateIp_v6_iff hparse, startsLocal, Bool.or_eq_true, Bool.or_eq_true] at h
    rcases h with rfl | hunique | hlink
    . have hloopback : IpAddr.parse "::1" = some (.v6 ⟨[0, 0, 0, 0, 0, 0, 0, 1], rfl⟩) := by decide
      rw [hloopback] at hparse
      obtain rfl := IpAddr.v6.inj (Option.some.inj hparse)
      exact .inl (.inl rfl)
    . obtain ⟨k, hk, hdiv⟩ := segment_of_unique_local hparse hfirst hunique
      by_cases hshort : first.toNat < 0x1000
      . exact .inr ⟨hunique, addr, first, rfl, hfirst, hshort⟩
      . left
        right
        match k, hk with
        | 0, _ => omega
        | 1, _ => omega
        | 2, _ => omega
    . obtain ⟨k, hk, hdiv⟩ := segment_of_startsWith hparse hfirst (by decide) (by decide) hlink
      obtain rfl : k = 0 := Nat.eq_zero_of_le_zero (Nat.le_of_add_le_add_right hk)
      have hsegment : first.toNat / 1 = 0xfe80 := hdiv
      omega

theorem Misread.isPrivateIp {s : Spelling} (h : s.Misread) :
    Rendezvous.isPrivateIp s.text = true ∧ ¬ IsPrivate s.addr := by
  obtain ⟨hunique, addr, first, haddr, hfirst, hshort⟩ := h
  have hparse := s.parse_text
  rw [haddr] at hparse ⊢
  obtain ⟨k, -, hdiv⟩ := segment_of_unique_local hparse hfirst hunique
  refine ⟨?_, ?_⟩
  . apply isPrivateIp_of_startsLocal
    rw [startsLocal, Bool.or_eq_true, Bool.or_eq_true]
    exact .inl hunique
  . rw [isPrivate_v6_iff hfirst]
    rintro (hloopback | hlocal | hlink)
    . rw [hloopback] at hfirst
      obtain rfl := Option.some.inj hfirst
      simp at hdiv
    . omega
    . omega

theorem not_startsLocal_loopback {text : String} {addr : Ipv6Addr}
    (hloopback : IpAddr.parse "::1" = some (.v6 addr)) (hparse : IpAddr.parse text = some (.v6 addr)) :
    ¬ startsLocal text = true := by
  have hsegments : IpAddr.parse "::1" = some (.v6 ⟨[0, 0, 0, 0, 0, 0, 0, 1], rfl⟩) := by decide
  rw [hsegments] at hloopback
  obtain rfl := IpAddr.v6.inj (Option.some.inj hloopback)
  have hfirst : (⟨[0, 0, 0, 0, 0, 0, 0, 1], rfl⟩ : Ipv6Addr).segments.head? = some 0 := by rfl
  rw [startsLocal, Bool.or_eq_true, Bool.or_eq_true]
  rintro (hunique | hlink)
  . obtain ⟨k, -, hdiv⟩ := segment_of_unique_local hparse hfirst hunique
    simp at hdiv
  . obtain ⟨k, -, hdiv⟩ := segment_of_startsWith hparse hfirst (by decide) (by decide) hlink
    simp at hdiv
    exact absurd hdiv (by decide)

/--
Two spellings of one address for which the test of the text succeeds are the same, or both begin with
one of the prefixes of IPv6.
-/
theorem startsLocal_of_isPrivateIp {s s' : Spelling} (haddr : s.addr = s'.addr)
    (hne : s.text ≠ s'.text) (h : isPrivateIp s.text = true) (h' : isPrivateIp s'.text = true) :
    startsLocal s.text = true ∧ startsLocal s'.text = true := by
  obtain ⟨text, addr, hparse⟩ := s
  obtain ⟨text', addr', hparse'⟩ := s'
  obtain rfl : addr = addr' := haddr
  dsimp only at hne h h' ⊢
  cases addr with
  | v4 addr =>
    rw [parse_eq_v4_iff.mp hparse, parse_eq_v4_iff.mp hparse'] at hne
    exact absurd rfl hne
  | v6 addr =>
    rw [isPrivateIp_v6_iff hparse] at h
    rw [isPrivateIp_v6_iff hparse'] at h'
    rcases h with rfl | hlocal
    . rcases h' with rfl | hlocal'
      . exact absurd rfl hne
      . exact absurd hlocal' (not_startsLocal_loopback hparse hparse')
    . rcases h' with rfl | hlocal'
      . exact absurd hlocal (not_startsLocal_loopback hparse' hparse)
      . exact ⟨hlocal, hlocal'⟩

/--
Nothing but the spelling decides between the rooms of the two addresses.
-/
structure SameKeys (s s' : Spelling) : Prop where
  same : s.addr = s'.addr →
    s.text = s'.text ∨ (startsLocal s.text = true ∧ startsLocal s'.text = true)
  different : s.addr ≠ s'.addr →
    ¬ (s.Misread ∧ isPrivateIp s'.text = true) ∧ ¬ (s'.Misread ∧ isPrivateIp s.text = true)

theorem roomOfIp_iff (s s' : Spelling)
    : ((s.addr = s'.addr → roomOfIp s.text = roomOfIp s'.text)
          ∧ (s.addr ≠ s'.addr → ¬ (IsPrivate s.addr ∧ IsPrivate s'.addr) →
            ¬ roomOfIp s.text = roomOfIp s'.text))
        ↔
      SameKeys s s' := by
  have hkey := roomOfIp_eq_iff s s'
  by_cases haddr : s.addr = s'.addr
  . constructor
    . rintro ⟨hsame, -⟩
      refine ⟨?_, fun hne => absurd haddr hne⟩
      intro _
      by_cases htext : s.text = s'.text
      . exact .inl htext
      . rcases hkey.mp (hsame haddr) with heq | ⟨hprivate, hprivate'⟩
        . exact absurd heq htext
        . exact .inr (startsLocal_of_isPrivateIp haddr htext hprivate hprivate')
    . intro hkeys
      refine ⟨?_, fun hne => absurd haddr hne⟩
      intro _
      rw [hkey]
      rcases hkeys.same haddr with heq | ⟨hlocal, hlocal'⟩
      . exact .inl heq
      . exact .inr ⟨isPrivateIp_of_startsLocal hlocal, isPrivateIp_of_startsLocal hlocal'⟩
  . have htext : s.text ≠ s'.text := by
      intro heq
      apply haddr
      apply Option.some.inj
      rw [← s.parse_text, heq, s'.parse_text]
    rw [or_iff_right htext] at hkey
    rw [not_congr hkey]
    constructor
    . rintro ⟨-, hdifferent⟩
      refine ⟨fun heq => absurd heq haddr, ?_⟩
      intro _
      constructor
      . rintro ⟨hmisread, hprivate'⟩
        obtain ⟨hprivate, hpublic⟩ := hmisread.isPrivateIp
        exact hdifferent haddr (fun hboth => hpublic hboth.1) ⟨hprivate, hprivate'⟩
      . rintro ⟨hmisread', hprivate⟩
        obtain ⟨hprivate', hpublic'⟩ := hmisread'.isPrivateIp
        exact hdifferent haddr (fun hboth => hpublic' hboth.2) ⟨hprivate, hprivate'⟩
    . intro hkeys
      refine ⟨fun heq => absurd heq haddr, ?_⟩
      rintro _ hpublic ⟨hprivate, hprivate'⟩
      obtain ⟨hread, hread'⟩ := hkeys.different haddr
      apply hpublic
      constructor
      . exact (isPrivate_or_misread hprivate).resolve_right fun hmisread => hread ⟨hmisread, hprivate'⟩
      . exact (isPrivate_or_misread hprivate').resolve_right
          fun hmisread => hread' ⟨hmisread, hprivate⟩

end Spelling

/-! ### Connections -/

theorem parse_of_forwardedFor {req : Request} {ip : String} (h : forwardedFor req = some ip) :
    (IpAddr.parse ip).isSome = true := by
  unfold forwardedFor at h
  split at h
  . dsimp only at h
    split at h
    . next hparse =>
      obtain rfl := Option.some.inj h
      exact hparse
    . exact parse_of_forwardedForXff h
  . exact parse_of_forwardedForXff h

theorem parse_rawIp (trustedProxies : List IpAddr) (addr : IpAddr) (req : Request) :
    (IpAddr.parse (rawIp trustedProxies addr (forwardedFor req))).isSome = true := by
  have hdisplay : (IpAddr.parse addr.display).isSome = true := by
    rw [parse_display]
    rfl
  cases hforwarded : forwardedFor req with
  | none => exact hdisplay
  | some ip =>
    have hip := parse_of_forwardedFor hforwarded
    unfold rawIp
    dsimp only
    split
    . exact hip
    . split
      . exact hip
      . exact hdisplay

/--
The address that a connection counts for: that of its socket, or that of the header it is trusted for.
-/
def effective (trustedProxies : List IpAddr) (addr : IpAddr) (req : Request) : Spelling where
  text := rawIp trustedProxies addr (forwardedFor req)
  addr := (IpAddr.parse (rawIp trustedProxies addr (forwardedFor req))).get
    (parse_rawIp trustedProxies addr req)
  parse_text := (Option.some_get _).symm

theorem room_of_address_iff (trustedProxies : List IpAddr) (addr addr' : IpAddr) (req req' : Request)
    : (((effective trustedProxies addr req).addr = (effective trustedProxies addr' req').addr →
            clientIp trustedProxies addr req = clientIp trustedProxies addr' req')
          ∧ ((effective trustedProxies addr req).addr ≠ (effective trustedProxies addr' req').addr →
            ¬ (IsPrivate (effective trustedProxies addr req).addr
              ∧ IsPrivate (effective trustedProxies addr' req').addr) →
              clientIp trustedProxies addr req ≠ clientIp trustedProxies addr' req'))
        ↔
      (effective trustedProxies addr req).SameKeys (effective trustedProxies addr' req') := by
  exact Spelling.roomOfIp_iff _ _

theorem room_of_uppercase_address
    : let proxy := IpAddr.v4 ⟨[203, 0, 113, 1], rfl⟩
      let req : Request := ⟨some (header "2001:DB8::1"), none⟩
      let req' : Request := ⟨some (header "2001:db8::1"), none⟩
      (effective [proxy] proxy req).addr = (effective [proxy] proxy req').addr
        ∧ clientIp [proxy] proxy req ≠ clientIp [proxy] proxy req' := by
  decide +kernel

end Rendezvous

end LocalBolt
