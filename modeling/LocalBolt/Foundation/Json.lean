import Mathlib.Algebra.Group.Int.Defs
import Mathlib.Algebra.Group.Nat.Defs
import Mathlib.Data.Rat.Defs

/-!
This module contains JSON documents as Foundation hands them to Swift code: the values, and the
conditional casts (`as? String`, `as? Int` and so on) by which a program reads a dictionary.
-/

namespace LocalBolt

inductive Json where
  | null
  | bool (b : Bool)
  | num (q : ℚ)
  | str (s : String)
  | arr (values : List Json)
  | obj (fields : List (String × Json))

abbrev Dict := List (String × Json)

namespace Json

mutual

def beq : Json → Json → Bool
  | .null, .null => true
  | .bool a, .bool b => a == b
  | .num p, .num q => p == q
  | .str s, .str t => s == t
  | .arr l, .arr l' => beqList l l'
  | .obj f, .obj f' => beqFields f f'
  | _, _ => false

def beqList : List Json → List Json → Bool
  | [], [] => true
  | a :: l, b :: l' => beq a b && beqList l l'
  | _, _ => false

def beqFields : List (String × Json) → List (String × Json) → Bool
  | [], [] => true
  | (k, a) :: f, (k', b) :: f' => k == k' && (beq a b && beqFields f f')
  | _, _ => false

end

mutual

theorem beq_iff_eq : ∀ a b : Json, beq a b = true ↔ a = b
  | .null, b => by cases b <;> simp [beq]
  | .bool _, b => by cases b <;> simp [beq]
  | .num _, b => by cases b <;> simp [beq]
  | .str _, b => by cases b <;> simp [beq]
  | .arr l, b => by cases b <;> simp [beq, beqList_iff_eq l]
  | .obj f, b => by cases b <;> simp [beq, beqFields_iff_eq f]

theorem beqList_iff_eq : ∀ l l' : List Json, beqList l l' = true ↔ l = l'
  | [], l' => by cases l' <;> simp [beqList]
  | a :: l, l' => by cases l' <;> simp [beqList, beq_iff_eq a, beqList_iff_eq l]

theorem beqFields_iff_eq : ∀ f f' : List (String × Json), beqFields f f' = true ↔ f = f'
  | [], f' => by cases f' <;> simp [beqFields]
  | (k, a) :: f, f' => by
    cases f' with
    | nil => simp [beqFields]
    | cons b f' => simp [beqFields, beq_iff_eq a, beqFields_iff_eq f, Prod.ext_iff, and_assoc]

end

instance : DecidableEq Json := fun a b => decidable_of_iff _ (beq_iff_eq a b)

def string? : Json → Option String
  | .str s => some s
  | _ => none

/--
`as? NSNumber`; a JSON boolean is bridged to the number 0 or 1.
-/
def number? : Json → Option ℚ
  | .num q => some q
  | .bool b => some (if b then 1 else 0)
  | _ => none

/--
`as? Int`, which succeeds only when the value is kept exactly.
-/
def int? (j : Json) : Option Int :=
  match j.number? with
  | some q => if q.den = 1 ∧ -2 ^ 63 ≤ q.num ∧ q.num < 2 ^ 63 then some q.num else none
  | none => none

def bool? : Json → Option Bool
  | .bool b => some b
  | _ => none

def object? : Json → Option Dict
  | .obj fields => some fields
  | _ => none

end Json

namespace Dict

def get? (d : Dict) (key : String) : Option Json := d.lookup key

def string? (d : Dict) (key : String) : Option String := (d.get? key).bind Json.string?

def int? (d : Dict) (key : String) : Option Int := (d.get? key).bind Json.int?

def number? (d : Dict) (key : String) : Option ℚ := (d.get? key).bind Json.number?

def object? (d : Dict) (key : String) : Option Dict := (d.get? key).bind Json.object?

end Dict

/--
The conversion `UInt32(n)`, which traps outside the range.
-/
def uint32? (n : Int) : Option UInt32 :=
  if 0 ≤ n ∧ n < 2 ^ 32 then some (UInt32.ofNat n.toNat) else none

/--
`NSNumber.uint64Value`: the fraction is cut off and the rest is taken modulo `2 ^ 64`.
-/
def uint64Value (q : ℚ) : UInt64 :=
  UInt64.ofInt (if 0 ≤ q then q.floor else -(-q).floor)

end LocalBolt
