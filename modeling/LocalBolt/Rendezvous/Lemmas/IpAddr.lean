import LocalBolt.Rendezvous.Lemmas.AddrParser

/-!
This module contains that an IP address is read back from how it is displayed, and that an IPv4 address
has no other text.
-/

namespace LocalBolt

namespace Rendezvous

open AddrParser

theorem Ipv4Addr.toList_display (addr : Ipv4Addr)
    : addr.display.toList = ['.'].intercalate (addr.octets.map octetText) := by
  have htexts : (addr.octets.map toString).map String.toList = addr.octets.map octetText := by
    rw [List.map_map]
    apply List.map_congr_left
    intro octet _
    exact Nat.toList_repr
  rw [Ipv4Addr.display, String.toList_intercalate, htexts]
  rfl

theorem parse_eq_v4_iff {text : String} {addr : Ipv4Addr} :
    IpAddr.parse text = some (.v4 addr) ↔ text = addr.display := by
  have hread : text = addr.display ↔ readIpv4Addr text.toList = some (addr.octets, []) := by
    rw [readIpv4Addr_eq_some_iff, ← String.toList_inj, addr.toList_display, List.append_nil]
    simp [addr.length_octets, Stops]
  rw [hread]
  unfold IpAddr.parse
  constructor
  . intro hparse
    split at hparse
    . next octets rest heq =>
      split at hparse
      . next h =>
        obtain ⟨rfl, hlength⟩ := h
        obtain rfl := IpAddr.v4.inj (Option.some.inj hparse)
        exact heq
      . contradiction
    . split at hparse
      . split at hparse
        . cases Option.some.inj hparse
        . contradiction
      . contradiction
  . intro heq
    simp [heq, addr.length_octets]

namespace Ipv6Addr

/--
The span is one of zero segments.
-/
def Span.Within (span : Span) (segments : List UInt16) : Prop :=
  ∃ before after, segments = before ++ List.replicate span.len 0 ++ after
    ∧ before.length = span.start

theorem Span.Within.append {span : Span} {segments : List UInt16} (h : span.Within segments)
    (segments' : List UInt16) : span.Within (segments ++ segments') := by
  obtain ⟨before, after, rfl, hstart⟩ := h
  exact ⟨before, after ++ segments', List.append_assoc .., hstart⟩

theorem within_zeroes {longest current : Span} {done segments : List UInt16}
    (hlongest : longest.Within done)
    (hcurrent : ∃ before, done = before ++ List.replicate current.len 0
      ∧ (current.len ≠ 0 → before.length = current.start))
    : (zeroes longest current done.length segments).Within (done ++ segments) := by
  induction segments generalizing longest current done with
  | nil =>
    rw [List.append_nil]
    exact hlongest
  | cons segment segments ih =>
    have hdone : done.length + 1 = (done ++ [segment]).length := by simp
    have hall : done ++ segment :: segments = done ++ [segment] ++ segments := by simp
    unfold zeroes
    rw [hdone, hall]
    split
    . next hzero =>
      obtain ⟨before, hbefore, hstart⟩ := hcurrent
      have hlonger : done ++ [segment] = before ++ List.replicate (current.len + 1) 0 := by
        rw [hbefore, hzero, List.replicate_succ', List.append_assoc]
      have hlength : before.length = if current.len = 0 then done.length else current.start := by
        split
        . next hnew => rw [hbefore, hnew, List.replicate_zero, List.append_nil]
        . next hopen => exact hstart hopen
      dsimp only
      generalize (if current.len = 0 then done.length else current.start) = start at hlength ⊢
      apply ih
      . split
        . refine ⟨before, [], ?_, hlength⟩
          rw [List.append_nil]
          exact hlonger
        . exact hlongest.append [segment]
      . exact ⟨before, hlonger, fun _ => hlength⟩
    . apply ih
      . exact hlongest.append [segment]
      . exact ⟨done ++ [segment], by simp, by simp⟩

theorem toList_fmtSubslice (chunk : List UInt16)
    : (fmtSubslice chunk).toList = [':'].intercalate (chunk.map groupText) := by
  have htexts : (chunk.map fun segment => String.ofList (Nat.toDigits 16 segment.toNat)).map
      String.toList = chunk.map groupText := by
    rw [List.map_map]
    apply List.map_congr_left
    intro segment _
    exact String.toList_ofList
  rw [fmtSubslice, String.toList_intercalate, htexts]
  rfl

theorem fromBeBytes_toUInt8 (segment : UInt16)
    : fromBeBytes (segment >>> 8).toUInt8 segment.toUInt8 = segment := by
  have hlt := segment.toNat_lt
  apply UInt16.toNat_inj.mp
  unfold fromBeBytes
  rw [UInt16.toNat_ofNat', UInt16.toNat_toUInt8, UInt16.toNat_toUInt8, UInt16.toNat_shiftRight]
  simp [Nat.shiftRight_eq_div_pow]
  omega

theorem display_of_mapped {addr : Ipv6Addr} {ipv4 : Ipv4Addr} (h : addr.toIpv4Mapped = some ipv4)
    : ∃ one two three four, ipv4.octets = [one, two, three, four]
        ∧ addr.segments = [0, 0, 0, 0, 0, 0xffff, fromBeBytes one two, fromBeBytes three four] := by
  unfold toIpv4Mapped at h
  split at h
  . next ab cd hsegments =>
    obtain rfl := Option.some.inj h
    refine ⟨_, _, _, _, rfl, ?_⟩
    rw [fromBeBytes_toUInt8, fromBeBytes_toUInt8]
    exact hsegments
  . contradiction

/--
An address that is not an IPv4 one is written as its groups, or with one run of zeroes left out.
-/
theorem display_of_not_mapped {addr : Ipv6Addr} (h : addr.toIpv4Mapped = none)
    : addr.display.toList = [':'].intercalate (addr.segments.map groupText)
        ∨ ∃ before after len, 1 < len ∧ addr.segments = before ++ List.replicate len 0 ++ after
            ∧ addr.display.toList = [':'].intercalate (before.map groupText) ++ ':' :: ':'
              :: [':'].intercalate (after.map groupText) := by
  have hwithin : (zeroes ⟨0, 0⟩ ⟨0, 0⟩ 0 addr.segments).Within addr.segments :=
    @within_zeroes ⟨0, 0⟩ ⟨0, 0⟩ [] addr.segments ⟨[], [], rfl, rfl⟩ ⟨[], rfl, fun h => absurd rfl h⟩
  unfold display
  rw [h]
  dsimp only
  generalize zeroes ⟨0, 0⟩ ⟨0, 0⟩ 0 addr.segments = span at hwithin ⊢
  split
  . next hlen =>
    obtain ⟨before, after, hsegments, hstart⟩ := hwithin
    have hbefore : addr.segments.take span.start = before := by
      rw [hsegments, ← hstart, List.append_assoc, List.take_left]
    have hafter : addr.segments.drop (span.start + span.len) = after := by
      have hlength : span.start + span.len = (before ++ List.replicate span.len 0).length := by
        rw [List.length_append, List.length_replicate, hstart]
      rw [hsegments, hlength, List.drop_left]
    right
    refine ⟨before, after, span.len, hlen, hsegments, ?_⟩
    rw [hbefore, hafter, String.toList_append, String.toList_append, toList_fmtSubslice,
      toList_fmtSubslice, List.append_assoc]
    rfl
  . left
    exact toList_fmtSubslice addr.segments

theorem readIpv6Addr_display (addr : Ipv6Addr) :
    readIpv6Addr addr.display.toList = some (addr.segments, []) := by
  cases hmapped : addr.toIpv4Mapped with
  | some ipv4 =>
    obtain ⟨one, two, three, four, hoctets, hsegments⟩ := display_of_mapped hmapped
    have hdisplay : addr.display = "::ffff:" ++ ipv4.display := by
      unfold display
      rw [hmapped]
    rw [hdisplay, String.toList_append, ipv4.toList_display, hoctets, readIpv6Addr_mapped, hsegments]
  | none =>
    have hlength := addr.length_segments
    rcases display_of_not_mapped hmapped with
      hdisplay | ⟨before, after, len, hlen, hsegments, hdisplay⟩
    . rw [hdisplay]
      exact readIpv6Addr_full hlength
    . rw [hsegments] at hlength ⊢
      simp only [List.length_append, List.length_replicate] at hlength
      rw [hdisplay]
      exact readIpv6Addr_zeroes hlen hlength

theorem readIpv4Addr_display (addr : Ipv6Addr) : readIpv4Addr addr.display.toList = none := by
  cases hmapped : addr.toIpv4Mapped with
  | some ipv4 =>
    have hdisplay : addr.display = "::ffff:" ++ ipv4.display := by
      unfold display
      rw [hmapped]
    apply readIpv4Addr_eq_none
    rw [hdisplay, String.toList_append]
    rintro c ⟨⟩
    rfl
  | none =>
    rcases display_of_not_mapped hmapped with hdisplay | ⟨before, after, len, -, -, hdisplay⟩
    . have hread := readIpv4Addr_intercalate addr.segments (.inl rfl)
      rw [List.append_nil] at hread
      rw [hdisplay]
      exact hread
    . rw [hdisplay]
      exact readIpv4Addr_intercalate before (.inr ⟨_, rfl⟩)

end Ipv6Addr

theorem parse_display (addr : IpAddr) : IpAddr.parse addr.display = some addr := by
  cases addr with
  | v4 addr => exact parse_eq_v4_iff.mpr rfl
  | v6 addr =>
    have hipv4 := addr.readIpv4Addr_display
    have hipv6 := addr.readIpv6Addr_display
    simp [IpAddr.parse, IpAddr.display, hipv4, hipv6, addr.length_segments]

theorem display_injective : Function.Injective IpAddr.display := by
  intro addr addr' heq
  apply Option.some.inj
  rw [← parse_display addr, heq, parse_display addr']

theorem read_of_parse_v6 {text : String} {addr : Ipv6Addr} (h : IpAddr.parse text = some (.v6 addr))
    : readIpv4Addr text.toList = none ∧ readIpv6Addr text.toList = some (addr.segments, []) := by
  unfold IpAddr.parse at h
  split at h
  . split at h
    . cases Option.some.inj h
    . contradiction
  . next hipv4 =>
    split at h
    . next segments rest hipv6 =>
      split at h
      . next hread =>
        obtain ⟨rfl, hlength⟩ := hread
        obtain rfl := IpAddr.v6.inj (Option.some.inj h)
        exact ⟨hipv4, hipv6⟩
      . contradiction
    . contradiction

end Rendezvous

end LocalBolt
