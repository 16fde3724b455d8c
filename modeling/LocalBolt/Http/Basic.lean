import Mathlib.Data.List.Basic
import LocalBolt.Utf8.Basic

/-!
This module contains HTTP requests as bytes, and which of them ask for a WebSocket.
-/

namespace LocalBolt

namespace Http

open Utf8

/-! ### Requests -/

def isTokenByte (byte : UInt8) : Bool :=
  (Char.ofNat byte.toNat).isAlphanum || byte ∈ ascii "!#$%&'*+-.^_`|~"

def isOws (byte : UInt8) : Bool := byte = 32 || byte = 9

def isTargetByte (byte : UInt8) : Bool := 32 < byte.toNat && byte.toNat < 127

def isContentByte (byte : UInt8) : Bool := byte = 9 || (32 ≤ byte.toNat && byte ≠ 127)

/--
A header with all that follows its colon.
-/
structure Header where
  name : List UInt8
  rest : List UInt8
  name_ne_nil : name ≠ []
  isToken : name.all isTokenByte = true
  isContent : rest.all isContentByte = true

structure Request where
  target : List UInt8
  headers : List Header
  target_ne_nil : target ≠ []
  isTarget : target.all isTargetByte = true

def Header.bytes (header : Header) : List UInt8 := header.name ++ 58 :: (header.rest ++ [13, 10])

namespace Request

/--
The bytes up to the end of the first headers.
-/
def bytesUpTo (req : Request) (headers : List Header) : List UInt8 :=
  ascii "GET " ++ req.target ++ ascii " HTTP/1.1\r\n" ++ headers.flatMap Header.bytes

def bytes (req : Request) : List UInt8 := req.bytesUpTo req.headers ++ [13, 10]

end Request

/-! ### WebSocket upgrades -/

def trimOws (bytes : List UInt8) : List UInt8 :=
  ((bytes.dropWhile isOws).reverse.dropWhile isOws).reverse

def Header.value (header : Header) : List UInt8 := trimOws header.rest

def eqIgnoreAsciiCase (bytes : List UInt8) (text : String) : Prop :=
  bytes.map toAsciiLowercase = (ascii text).map toAsciiLowercase

instance (bytes : List UInt8) (text : String) : Decidable (eqIgnoreAsciiCase bytes text) :=
  inferInstanceAs (Decidable (_ = _))

def isBase64Byte (byte : UInt8) : Bool :=
  (Char.ofNat byte.toNat).isAlphanum || byte ∈ ascii "+/"

/--
The base64 text of sixteen bytes.
-/
def IsKey (bytes : List UInt8) : Prop :=
  bytes.length = 24 ∧ (bytes.take 22).all isBase64Byte = true ∧ bytes.drop 22 = ascii "=="

instance (bytes : List UInt8) : Decidable (IsKey bytes) := inferInstanceAs (Decidable (_ ∧ _))

structure Request.IsUpgrade (req : Request) : Prop where
  host : ∃ header ∈ req.headers, eqIgnoreAsciiCase header.name "Host"
  upgrade : ∃ header ∈ req.headers, eqIgnoreAsciiCase header.name "Upgrade"
    ∧ eqIgnoreAsciiCase header.value "websocket"
  connection : ∃ header ∈ req.headers, eqIgnoreAsciiCase header.name "Connection"
    ∧ ∃ token ∈ header.value.splitOn 44, eqIgnoreAsciiCase (trimOws token) "Upgrade"
  key : ∃ header ∈ req.headers, eqIgnoreAsciiCase header.name "Sec-WebSocket-Key" ∧ IsKey header.value
  version : ∃ header ∈ req.headers, eqIgnoreAsciiCase header.name "Sec-WebSocket-Version"
    ∧ header.value = ascii "13"

end Http

end LocalBolt
