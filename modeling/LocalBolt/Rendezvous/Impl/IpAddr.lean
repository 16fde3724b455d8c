import Mathlib.Data.List.Basic

/-!
This module contains IP addresses as the standard library of Rust reads and writes them.
-/

namespace LocalBolt

namespace Rendezvous

structure Ipv4Addr where
  octets : List UInt8
  length_octets : octets.length = 4
  deriving DecidableEq

structure Ipv6Addr where
  segments : List UInt16
  length_segments : segments.length = 8
  deriving DecidableEq

inductive IpAddr where
  | v4 (addr : Ipv4Addr)
  | v6 (addr : Ipv6Addr)
  deriving DecidableEq

/-! ### Parsing -/

namespace AddrParser

def toDigit (radix : Nat) (c : Char) : Option Nat :=
  let digit :=
    if '0' ≤ c ∧ c ≤ '9' then some (c.toNat - '0'.toNat)
    else if 'a' ≤ c ∧ c ≤ 'z' then some (c.toNat - 'a'.toNat + 10)
    else if 'A' ≤ c ∧ c ≤ 'Z' then some (c.toNat - 'A'.toNat + 10)
    else none
  digit.filter (· < radix)

/--
Each reader returns what it read and the text after it.
-/
def readNumber (radix maxDigits bound : Nat) (allowZeroPrefix : Bool) (text : List Char) :
    Option (Nat × List Char) :=
  let digits := text.takeWhile fun c => (toDigit radix c).isSome
  let rest := text.dropWhile fun c => (toDigit radix c).isSome
  let result := (digits.filterMap (toDigit radix)).foldl (fun result digit => result * radix + digit) 0
  if digits.length = 0 ∨ digits.length > maxDigits then
    none
  else if allowZeroPrefix = false ∧ digits.head? = some '0' ∧ digits.length > 1 then
    none
  else if result < bound then
    some (result, rest)
  else
    none

def readGivenChar (target : Char) : List Char → Option (List Char)
  | [] => none
  | c :: rest => if c = target then some rest else none

def readSeparator {α : Type} (sep : Char) (index : Nat) (inner : List Char → Option (α × List Char))
    (text : List Char) : Option (α × List Char) :=
  if index > 0 then (readGivenChar sep text).bind inner else inner text

/--
Reads the octets that are left, `index` of them having been read.
-/
def readOctets (index : Nat) : Nat → List Char → Option (List UInt8 × List Char)
  | 0, text => some ([], text)
  | left + 1, text =>
    match readSeparator '.' index (readNumber 10 3 256 false) text with
    | none => none
    | some (octet, text) =>
      match readOctets (index + 1) left text with
      | none => none
      | some (octets, text) => some (.ofNat octet :: octets, text)

def readIpv4Addr (text : List Char) : Option (List UInt8 × List Char) := readOctets 0 4 text

def fromBeBytes (high low : UInt8) : UInt16 := .ofNat (high.toNat * 256 + low.toNat)

/--
Reads as many groups as there are, at most `left`, `index` of them having been read, and says whether
an IPv4 address was read at their end.
-/
def readGroups (index : Nat) : Nat → List Char → List UInt16 × Bool × List Char
  | 0, text => ([], false, text)
  | left + 1, text =>
    let group :=
      match readSeparator ':' index (readNumber 16 4 65536 true) text with
      | some (group, text) =>
        let (groups, ipv4, text) := readGroups (index + 1) left text
        (.ofNat group :: groups, ipv4, text)
      | none => ([], false, text)
    if left = 0 then
      group
    else
      match readSeparator ':' index readIpv4Addr text with
      | some ([one, two, three, four], text) =>
        ([fromBeBytes one two, fromBeBytes three four], true, text)
      | _ => group

def readIpv6Addr (text : List Char) : Option (List UInt16 × List Char) :=
  let (head, headIpv4, text) := readGroups 0 8 text
  if head.length = 8 then
    some (head, text)
  else if headIpv4 then
    none
  else
    match (readGivenChar ':' text).bind (readGivenChar ':') with
    | none => none
    | some text =>
      let (tail, _, text) := readGroups 0 (8 - (head.length + 1)) text
      some (head ++ List.replicate (8 - head.length - tail.length) 0 ++ tail, text)

end AddrParser

/--
`str::parse::<IpAddr>`.
-/
def IpAddr.parse (text : String) : Option IpAddr :=
  match AddrParser.readIpv4Addr text.toList with
  | some (octets, rest) =>
    if h : rest = [] ∧ octets.length = 4 then some (.v4 ⟨octets, h.2⟩) else none
  | none =>
    match AddrParser.readIpv6Addr text.toList with
    | some (segments, rest) =>
      if h : rest = [] ∧ segments.length = 8 then some (.v6 ⟨segments, h.2⟩) else none
    | none => none

/-! ### Printing -/

def Ipv4Addr.display (addr : Ipv4Addr) : String := ".".intercalate (addr.octets.map toString)

namespace Ipv6Addr

structure Span where
  start : Nat
  len : Nat

/--
The longest run of zero segments, the first one of several.
-/
def zeroes (longest current : Span) (index : Nat) : List UInt16 → Span
  | [] => longest
  | segment :: segments =>
    if segment = 0 then
      let current : Span :=
        { start := if current.len = 0 then index else current.start, len := current.len + 1 }
      zeroes (if current.len > longest.len then current else longest) current (index + 1) segments
    else
      zeroes longest ⟨0, 0⟩ (index + 1) segments

def fmtSubslice (chunk : List UInt16) : String :=
  ":".intercalate (chunk.map fun segment => .ofList (Nat.toDigits 16 segment.toNat))

def toIpv4Mapped (addr : Ipv6Addr) : Option Ipv4Addr :=
  match addr.segments with
  | [0, 0, 0, 0, 0, 0xffff, ab, cd] =>
    some ⟨[(ab >>> 8).toUInt8, ab.toUInt8, (cd >>> 8).toUInt8, cd.toUInt8], rfl⟩
  | _ => none

def display (addr : Ipv6Addr) : String :=
  match addr.toIpv4Mapped with
  | some ipv4 => "::ffff:" ++ ipv4.display
  | none =>
    let zeroes := zeroes ⟨0, 0⟩ ⟨0, 0⟩ 0 addr.segments
    if zeroes.len > 1 then
      fmtSubslice (addr.segments.take zeroes.start) ++ "::"
        ++ fmtSubslice (addr.segments.drop (zeroes.start + zeroes.len))
    else
      fmtSubslice addr.segments

end Ipv6Addr

/--
`IpAddr::to_string`.
-/
def IpAddr.display : IpAddr → String
  | .v4 addr => addr.display
  | .v6 addr => addr.display

example : (IpAddr.parse "2001:DB8:0:0:1::7").map IpAddr.display = some "2001:db8::1:0:0:7" := by decide

example : (IpAddr.parse "::ffff:192.168.1.5").map IpAddr.display = some "::ffff:192.168.1.5" := by
  decide

example : IpAddr.parse "192.168.01.5" = none := by decide

end Rendezvous

end LocalBolt
