import LocalBolt.Foundation.Json

/-!
This module contains dates and the two date strategies of `JSONEncoder` and `JSONDecoder` that the
app uses: the default one, which stores a number, and `.iso8601`, which stores a text.
-/

namespace LocalBolt

/--
A date, in seconds since the start of 2001 (UTC).
-/
structure Date where
  timeIntervalSinceReferenceDate : ℚ
  deriving DecidableEq

namespace Date

/--
Year, month and day of the `z`-th day after 1970-01-01, in eras of 400 years that start in March.
-/
def civil (z : Int) : Int × Int × Int :=
  let z := z + 719468
  let era := z / 146097
  let dayOfEra := z - era * 146097
  let yearOfEra := (dayOfEra - dayOfEra / 1460 + dayOfEra / 36524 - dayOfEra / 146096) / 365
  let dayOfYear := dayOfEra - (365 * yearOfEra + yearOfEra / 4 - yearOfEra / 100)
  let shifted := (5 * dayOfYear + 2) / 153
  let day := dayOfYear - (153 * shifted + 2) / 5 + 1
  let month := if shifted < 10 then shifted + 3 else shifted - 9
  let year := yearOfEra + era * 400 + if month ≤ 2 then 1 else 0
  (year, month, day)

def pad (width : Nat) (n : Int) : String :=
  let digits := toString n
  String.ofList (List.replicate (width - digits.length) '0') ++ digits

def iso8601 (d : Date) : String :=
  let seconds := d.timeIntervalSinceReferenceDate.floor + 978307200
  let (year, month, day) := civil (seconds / 86400)
  let rest := seconds % 86400
  pad 4 year ++ "-" ++ pad 2 month ++ "-" ++ pad 2 day ++ "T"
    ++ pad 2 (rest / 3600) ++ ":" ++ pad 2 (rest / 60 % 60) ++ ":" ++ pad 2 (rest % 60) ++ "Z"

end Date

inductive DateEncodingStrategy where
  | deferredToDate
  | iso8601
  deriving DecidableEq

def DateEncodingStrategy.encode (strategy : DateEncodingStrategy) (d : Date) : Json :=
  match strategy with
  | .deferredToDate => .num d.timeIntervalSinceReferenceDate
  | .iso8601 => .str d.iso8601

/--
A `JSONDecoder` left at its default strategy takes a date from a number and from nothing else.
-/
def decodeDate : Json → Option Date
  | .num q => some ⟨q⟩
  | _ => none

@[simp]
theorem decodeDate_deferredToDate (d : Date) :
    decodeDate (DateEncodingStrategy.deferredToDate.encode d) = some d := by
  rfl

@[simp]
theorem decodeDate_iso8601 (d : Date) : decodeDate (DateEncodingStrategy.iso8601.encode d) = none := by
  rfl

end LocalBolt
