import LocalBolt.Rendezvous.Impl.IpAddr

/-!
This module contains the part of `handle_connection` that decides which address a WebSocket upgrade
request counts for, and with it the room of the connection.
-/

namespace LocalBolt

namespace Rendezvous

def startsWith (text pattern : String) : Bool := pattern.toList.isPrefixOf text.toList

/--
`str::parse::<u8>`.
-/
def parseU8 (text : List Char) : Option Nat :=
  let digits := if text.head? = some '+' then text.tail else text
  if digits ≠ [] ∧ digits.all Char.isDigit then
    (some (digits.foldl (fun n c => n * 10 + (c.toNat - '0'.toNat)) 0)).filter (· < 256)
  else
    none

def secondOctetIn (low high : Nat) (ip : String) : Bool :=
  match (ip.toList.splitOn '.')[1]? with
  | none => false
  | some second => (parseU8 second).any fun n => low ≤ n ∧ n ≤ high

def isPrivateIp (ip : String) : Bool :=
  ip = "127.0.0.1"
    || startsWith ip "10."
    || startsWith ip "192.168."
    || startsWith ip "169.254."
    || (startsWith ip "172." && secondOctetIn 16 31 ip)
    || (startsWith ip "100." && secondOctetIn 64 127 ip)
    || ip = "::1"
    || (startsWith ip "fc" || startsWith ip "fd")
    || startsWith ip "fe80"

structure HeaderValue where
  bytes : List UInt8

def isVisibleAscii (byte : UInt8) : Bool := (32 ≤ byte && byte < 127) || byte = 9

/--
`HeaderValue::to_str`.
-/
def HeaderValue.toStr (value : HeaderValue) : Option (List Char) :=
  if value.bytes.all isVisibleAscii then
    some (value.bytes.map fun byte => Char.ofNat byte.toNat)
  else
    none

def trim (text : List Char) : List Char :=
  ((text.dropWhile Char.isWhitespace).reverse.dropWhile Char.isWhitespace).reverse

/--
The headers of an upgrade request that the server reads: the first value under each name.
-/
structure Request where
  flyClientIp : Option HeaderValue
  xForwardedFor : Option HeaderValue

/--
What the second half of the handshake callback stores for an `X-Forwarded-For` header.
-/
def forwardedForXff (xForwardedFor : Option HeaderValue) : Option String := do
  let value ← (← xForwardedFor).toStr
  let rawIp := String.ofList (trim ((value.splitOn ',').headD value))
  if (IpAddr.parse rawIp).isSome then some rawIp else none

/--
What the handshake callback stores.
-/
def forwardedFor (req : Request) : Option String :=
  match req.flyClientIp.bind HeaderValue.toStr with
  | some value =>
    let ipStr := String.ofList (trim value)
    if (IpAddr.parse ipStr).isSome then some ipStr else forwardedForXff req.xForwardedFor
  | none => forwardedForXff req.xForwardedFor

def rawIp (trustedProxies : List IpAddr) (addr : IpAddr) : Option String → String
  | some ip =>
    if addr ∈ trustedProxies then ip
    else if isPrivateIp addr.display ∧ ip ≠ "" then ip
    else addr.display
  | none => addr.display

def roomOfIp (rawIp : String) : String := if isPrivateIp rawIp then "local" else rawIp

def clientIp (trustedProxies : List IpAddr) (addr : IpAddr) (req : Request) : String :=
  roomOfIp (rawIp trustedProxies addr (forwardedFor req))

end Rendezvous

end LocalBolt
