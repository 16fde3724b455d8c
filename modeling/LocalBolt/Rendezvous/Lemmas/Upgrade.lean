import LocalBolt.Occurrence.Basic
import LocalBolt.Http.Basic
import LocalBolt.Rendezvous.Impl.Peek

/-!
This module contains which requests for a WebSocket are recognised from the bytes that `peek` returns.
-/

namespace LocalBolt

namespace Rendezvous

open Utf8 Http Occurrence

/--
The bytes that one call of `peek` returns while the request is being received.
-/
structure Delivery (req : Http.Request) where
  peeked : List UInt8
  isPrefix : peeked <+: req.bytes
  ne_nil : peeked ≠ []
  length_le : peeked.length ≤ peekBufLen

def upgradeText : List UInt8 := ascii "upgrade: websocket"

theorem afterPeek_eq_iff {bytes bytes' : List UInt8}
    : afterPeek (some bytes) = afterPeek (some bytes')
        ↔
      (afterPeek (some bytes) = .handshake ↔ afterPeek (some bytes') = .handshake) := by
  unfold afterPeek
  dsimp only
  split <;> split <;> simp

theorem afterPeek_eq_handshake_iff {bytes : List UInt8}
    : afterPeek (some bytes) = .handshake ↔ upgradeText <:+: bytes.map toAsciiLowercase := by
  have htext := infix_fromUtf8Lossy_iff "upgrade: websocket" (by decide) bytes
  rw [upgradeText, ← htext]
  unfold afterPeek
  dsimp only
  split
  . next hshown => exact iff_of_true rfl hshown
  . next hshown => exact iff_of_false AfterPeek.noConfusion hshown

/-! ### Lines -/

theorem mem_map_toAsciiLowercase {byte : UInt8} (h : byte.toNat < 65) {bytes : List UInt8}
    (hmem : byte ∉ bytes) : byte ∉ bytes.map toAsciiLowercase := by
  intro hlower
  obtain ⟨original, horiginal, heq⟩ := List.mem_map.mp hlower
  have hnat := congrArg UInt8.toNat heq
  rw [toNat_toAsciiLowercase] at hnat
  split at hnat
  . omega
  . rw [UInt8.toNat_inj.mp hnat] at horiginal
    exact hmem horiginal

theorem not_occursAt_startLine (req : Http.Request) (i : Nat)
    : ¬ OccursAt upgradeText ((ascii "GET " ++ req.target ++ ascii " HTTP/1.1\r").map toAsciiLowercase)
        i := by
  have hpattern : upgradeText = ascii "upgrade:" ++ 32 :: ascii "websocket" := by decide
  have hline : (ascii "GET " ++ req.target ++ ascii " HTTP/1.1\r").map toAsciiLowercase
      = ascii "get" ++ 32 :: (req.target.map toAsciiLowercase ++ 32 :: ascii "http/1.1\r") := by
    rw [List.map_append, List.map_append, List.append_assoc]
    rfl
  have htarget : (32 : UInt8) ∉ req.target.map toAsciiLowercase := by
    apply mem_map_toAsciiLowercase (by decide)
    intro hmem
    exact absurd (List.all_eq_true.mp req.isTarget 32 hmem) (by decide)
  rw [hline, hpattern, occursAt_over (by decide) (by decide)]
  rintro (⟨-, -, hlength⟩ | ⟨j, -, hrest⟩)
  . have hlt : (ascii "get").length < (ascii "upgrade:").length := by decide
    omega
  . rw [occursAt_over htarget (by decide)] at hrest
    rcases hrest with ⟨-, hversion, -⟩ | ⟨k, -, hversion⟩
    . exact absurd hversion (by decide)
    . have hle := hversion.add_length_le
      have hlt : (ascii "http/1.1\r").length < (ascii "upgrade:" ++ 32 :: ascii "websocket").length := by
        decide
      omega

/--
The upgrade is visible in the first bytes of the header.
-/
inductive Announces (header : Header) : Nat → Prop where
  | field (hname : ascii "upgrade" <:+ header.name.map toAsciiLowercase)
      (hvalue : ascii " websocket" <+: header.rest.map toAsciiLowercase)
      : Announces header (header.name.length + 11)
  | value {before after : List UInt8}
      (hvalue : header.rest.map toAsciiLowercase = before ++ (upgradeText ++ after))
      : Announces header (header.name.length + 1 + before.length + 18)

theorem occursAt_header_iff {header : Header} {i : Nat}
    : OccursAt upgradeText ((header.name ++ 58 :: (header.rest ++ [13])).map toAsciiLowercase) i
        ↔
      Announces header (i + 18) := by
  have hpattern : upgradeText = ascii "upgrade" ++ 58 :: ascii " websocket" := by decide
  have hname : (58 : UInt8) ∉ header.name.map toAsciiLowercase := by
    apply mem_map_toAsciiLowercase (by decide)
    intro hmem
    exact absurd (List.all_eq_true.mp header.isToken 58 hmem) (by decide)
  have hline : (header.name ++ 58 :: (header.rest ++ [13])).map toAsciiLowercase
      = (header.name.map toAsciiLowercase ++ 58 :: header.rest.map toAsciiLowercase) ++ 13 :: [] := by
    rw [List.map_append, List.map_cons, List.map_append, List.append_assoc, List.cons_append]
    rfl
  have hcr : ∀ {text : List UInt8}, OccursAt upgradeText (text ++ 13 :: []) i
      ↔ OccursAt upgradeText text i := by
    intro text
    rw [occursAt_append_cons (by decide), or_iff_left]
    rintro ⟨j, -, hnil⟩
    have hle := hnil.add_length_le
    have hlt : ([] : List UInt8).length < upgradeText.length := by decide
    omega
  have hover := @occursAt_over _ _ (header.rest.map toAsciiLowercase) 58 i (ascii "upgrade")
    (ascii " websocket") hname (by decide)
  rw [← hpattern, List.length_map] at hover
  rw [hline, hcr, hover]
  constructor
  . rintro (⟨hfield, hvalue, hlength⟩ | ⟨j, rfl, before, after, hvalue, rfl⟩)
    . have hlen : i + 18 = header.name.length + 11 := by
        have hfield : (ascii "upgrade").length = 7 := by decide
        omega
      rw [hlen]
      exact .field hfield hvalue
    . exact .value hvalue
  . intro hannounces
    generalize hlen : i + 18 = len at hannounces
    cases hannounces with
    | field hfield hvalue =>
      refine .inl ⟨hfield, hvalue, ?_⟩
      have hlength : (ascii "upgrade").length = 7 := by decide
      omega
    | @value before after hvalue => exact .inr ⟨before.length, by omega, before, after, hvalue, rfl⟩

/--
The first `n` bytes of the request show that it is for an upgrade.
-/
def Shown (req : Http.Request) (n : Nat) : Prop :=
  ∃ before header after len, req.headers = before ++ header :: after ∧ Announces header len
    ∧ (req.bytesUpTo before).length + len ≤ n

theorem map_bytesUpTo (req : Http.Request) (headers : List Header)
    : (req.bytesUpTo headers).map toAsciiLowercase
        =
      (ascii "GET " ++ req.target ++ ascii " HTTP/1.1\r").map toAsciiLowercase ++ 10 ::
        headers.flatMap fun header =>
          (header.name ++ 58 :: (header.rest ++ [13])).map toAsciiLowercase ++ [10] := by
  have hline : ascii " HTTP/1.1\r\n" = ascii " HTTP/1.1\r" ++ [10] := by decide
  have hheader : ∀ header : Header, header.bytes.map toAsciiLowercase
      = (header.name ++ 58 :: (header.rest ++ [13])).map toAsciiLowercase ++ [10] := by
    intro header
    simp [Header.bytes]
    decide
  simp only [Http.Request.bytesUpTo, hline, List.map_append, List.map_flatMap, hheader]
  simp
  decide

theorem occursAt_request_iff {req : Http.Request} {i : Nat}
    : OccursAt upgradeText (req.bytes.map toAsciiLowercase) i
        ↔
      ∃ before header after j, req.headers = before ++ header :: after ∧ Announces header (j + 18)
        ∧ i = (req.bytesUpTo before).length + j := by
  have hbytes : req.bytes.map toAsciiLowercase
      = (ascii "GET " ++ req.target ++ ascii " HTTP/1.1\r").map toAsciiLowercase ++ 10 ::
        ((req.headers.flatMap fun header =>
          (header.name ++ 58 :: (header.rest ++ [13])).map toAsciiLowercase ++ [10]) ++ [13, 10]) := by
    rw [Http.Request.bytes, List.map_append, map_bytesUpTo, List.append_assoc, List.cons_append]
    rfl
  have hlength : ∀ before : List Header, (req.bytesUpTo before).length
      = ((ascii "GET " ++ req.target ++ ascii " HTTP/1.1\r").map toAsciiLowercase).length + 1
        + (before.flatMap fun header =>
          (header.name ++ 58 :: (header.rest ++ [13])).map toAsciiLowercase ++ [10]).length := by
    intro before
    rw [← List.length_map (f := toAsciiLowercase), map_bytesUpTo, List.length_append, List.length_cons]
    omega
  have hend : ∀ j, ¬ OccursAt upgradeText [13, 10] j := by
    intro j hoccurs
    have hle := hoccurs.add_length_le
    have hlt : [13, 10].length < upgradeText.length := by decide
    omega
  rw [hbytes, occursAt_append_cons (by decide), or_iff_right (not_occursAt_startLine req i)]
  simp only [occursAt_lines (by decide : (10 : UInt8) ∉ upgradeText), occursAt_header_iff, hend, hlength]
  constructor
  . rintro ⟨j, rfl, ⟨before, header, after, hheaders, k, rfl, hannounces⟩ | ⟨k, -, hfalse⟩⟩
    . exact ⟨before, header, after, k, hheaders, hannounces, (Nat.add_assoc ..).symm⟩
    . contradiction
  . rintro ⟨before, header, after, k, hheaders, hannounces, rfl⟩
    exact ⟨_, Nat.add_assoc .., .inl ⟨before, header, after, hheaders, k, rfl, hannounces⟩⟩

theorem shown_iff (req : Http.Request) (n : Nat)
    : Shown req n ↔ upgradeText <:+: (req.bytes.take n).map toAsciiLowercase := by
  have hlength : upgradeText.length = 18 := by decide
  rw [List.map_take, infix_take_iff, hlength]
  simp only [occursAt_request_iff]
  constructor
  . rintro ⟨before, header, after, len, hheaders, hannounces, hle⟩
    obtain ⟨j, rfl⟩ : ∃ j, len = j + 18 := by
      cases hannounces with
      | field hname =>
        have hle := hname.length_le
        have hseven : (ascii "upgrade").length = 7 := by decide
        rw [hseven, List.length_map] at hle
        exact ⟨header.name.length - 7, by omega⟩
      | value => exact ⟨_, rfl⟩
    exact ⟨_, ⟨before, header, after, j, hheaders, hannounces, rfl⟩, by omega⟩
  . rintro ⟨i, ⟨before, header, after, j, hheaders, hannounces, rfl⟩, hle⟩
    exact ⟨before, header, after, j + 18, hheaders, hannounces, by omega⟩

theorem upgrade_detected_iff (req : Http.Request) (delivery delivery' : Delivery req)
    : (afterPeek (some delivery.peeked) = .handshake ↔ Shown req delivery.peeked.length)
        ∧ (afterPeek (some delivery.peeked) = afterPeek (some delivery'.peeked)
          ↔
        (Shown req delivery.peeked.length ↔ Shown req delivery'.peeked.length)) := by
  have hshown : ∀ delivery : Delivery req,
      afterPeek (some delivery.peeked) = .handshake ↔ Shown req delivery.peeked.length := by
    intro delivery
    rw [afterPeek_eq_handshake_iff, shown_iff, ← List.prefix_iff_eq_take.mp delivery.isPrefix]
  refine ⟨hshown delivery, ?_⟩
  rw [← hshown delivery, ← hshown delivery']
  exact afterPeek_eq_iff

def upgradeRequest : Http.Request where
  target := ascii "/"
  headers := [
    ⟨ascii "Host", ascii " localhost:3001", by decide, by decide, by decide⟩,
    ⟨ascii "Upgrade", ascii " websocket", by decide, by decide, by decide⟩,
    ⟨ascii "Connection", ascii " Upgrade", by decide, by decide, by decide⟩,
    ⟨ascii "Sec-WebSocket-Key", ascii " dGhlIHNhbXBsZSBub25jZQ==", by decide, by decide, by decide⟩,
    ⟨ascii "Sec-WebSocket-Version", ascii " 13", by decide, by decide, by decide⟩]
  target_ne_nil := by decide
  isTarget := by decide

/--
The request may come in two segments.
-/
theorem upgrade_missed_in_parts
    : upgradeRequest.IsUpgrade
        ∧ ∃ delivery delivery' : Delivery upgradeRequest,
          afterPeek (some delivery.peeked) = .respond healthCheckResponse
            ∧ afterPeek (some delivery'.peeked) = .handshake := by
  have hupgrade : upgradeRequest.IsUpgrade := {
    host := by decide
    upgrade := by decide
    connection := by decide
    key := by decide
    version := by decide }
  let part : Delivery upgradeRequest :=
    ⟨upgradeRequest.bytes.take 40, List.take_prefix .., by decide, by decide⟩
  let whole : Delivery upgradeRequest :=
    ⟨upgradeRequest.bytes, List.prefix_rfl, by decide, by decide +kernel⟩
  refine ⟨hupgrade, part, whole, ?_, ?_⟩
  . decide +kernel
  . decide +kernel

end Rendezvous

end LocalBolt
