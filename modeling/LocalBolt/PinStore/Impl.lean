import Mathlib.Data.List.AList
import LocalBolt.Foundation.Date

/-!
This module contains the pin store: the identity keys seen so far with the device names they were
seen under, and the JSON file that keeps them.
-/

namespace LocalBolt

structure PinEntry where
  verified : Bool
  firstSeen : Date
  deviceName : Option String
  deriving DecidableEq

abbrev Pins := AList (fun _ : String => PinEntry)

namespace PinEntry

/--
The synthesized `encode(to:)`: an absent device name is left out.
-/
def encode (strategy : DateEncodingStrategy) (entry : PinEntry) : Json :=
  .obj <|
    [("verified", .bool entry.verified), ("firstSeen", strategy.encode entry.firstSeen)]
      ++ (entry.deviceName.map fun name => ("deviceName", Json.str name)).toList

/--
The synthesized `init(from:)`; `none` stands for a thrown error.
-/
def decode (j : Json) : Option PinEntry := do
  let fields ← j.object?
  let verified ← (← fields.get? "verified").bool?
  let firstSeen ← decodeDate (← fields.get? "firstSeen")
  match fields.get? "deviceName" with
  | none => some { verified, firstSeen, deviceName := none }
  | some .null => some { verified, firstSeen, deviceName := none }
  | some name =>
    let name ← name.string?
    some { verified, firstSeen, deviceName := some name }

end PinEntry

namespace Pins

def encode (strategy : DateEncodingStrategy) (pins : Pins) : Json :=
  .obj (pins.entries.map fun e => (e.1, e.2.encode strategy))

/--
`JSONDecoder().decode([String: PinEntry].self, from: data)`: one entry that does not decode fails
the whole document.
-/
def decode (j : Json) : Option Pins := do
  let fields ← j.object?
  let entries ← fields.mapM fun f => f.2 |> PinEntry.decode |>.map fun e => Sigma.mk f.1 e
  some entries.toAList

end Pins

/--
A pin store, with the document at its `fileURL` (`none` while there is no readable one).
-/
structure PinStore where
  file : Option Json
  pins : Pins

namespace PinStore

def load (s : PinStore) : PinStore :=
  match s.file.bind Pins.decode with
  | some decoded => { s with pins := decoded }
  | none => s

def save (s : PinStore) : PinStore :=
  { s with file := some (s.pins.encode .iso8601) }

/--
`PinStore(dataDir:)`, where `file` is what the directory holds.
-/
def init (file : Option Json) : PinStore :=
  load { file, pins := ∅ }

def isVerified (_s : PinStore) (_identityKeyB64 : String) : Bool := false

def pin (s : PinStore) (identityKeyB64 : String) (deviceName : Option String) (now : Date) :
    PinStore :=
  if identityKeyB64 ∈ s.pins then
    s
  else
    save { s with pins := s.pins.insert identityKeyB64 { verified := false, firstSeen := now, deviceName } }

def markVerified (s : PinStore) (_identityKeyB64 : String) (_deviceName : Option String) : PinStore := s

def checkMismatch (s : PinStore) (identityKeyB64 deviceName : String) : Option String :=
  let other := s.pins.entries.find? fun e =>
    e.2.deviceName = some deviceName ∧ e.1 ≠ identityKeyB64
  other.map fun e => String.ofList (e.1.toList.take 12) ++ "..."

end PinStore

end LocalBolt
