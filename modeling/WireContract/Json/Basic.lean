import WireContract.Double.Decimal

/-!
# JSON values

A value is a tree whose objects keep their fields in the order in which they were first written.
Integers that fit in 64 bits stay integers; every other number is a double.  `Json.insert` is the
rule for a repeated key: the last value wins, at the place of the first.
-/

namespace WireContract

/-- A JSON number: an integer of 64 bits, signed or unsigned, or a double. -/
inductive Json.Number where
  | int (n : Int)
  | double (x : Double)
deriving DecidableEq, Repr, Inhabited

/-- A JSON value. -/
inductive Json where
  | null
  | bool (b : Bool)
  | num (n : Json.Number)
  | str (s : String)
  | arr (items : List Json)
  | obj (fields : List (String × Json))
deriving Repr, Inhabited

namespace Json

/-- Sets a key: the value of a key that is already there is replaced in place. -/
def insert (fields : List (String × Json)) (key : String) (value : Json) :
    List (String × Json) :=
  match fields with
  | [] => [(key, value)]
  | (k, v) :: rest =>
    if k == key then (k, value) :: rest else (k, v) :: insert rest key value

/-- The fields without a key. -/
def erase (fields : List (String × Json)) (key : String) : List (String × Json) :=
  fields.filter fun (k, _) => k != key

/-- The value of a key of an object. -/
def get? (key : String) : Json → Option Json
  | obj fields => fields.lookup key
  | _ => none

/-- The number of a non-negative integer. -/
def asNat? : Json → Option Nat
  | num (.int n) => if 0 ≤ n then some n.toNat else none
  | _ => none

/-! ## Equality

Equality is decided by recursion on the tree; it is spelled out because the type nests in lists. -/

mutual

/-- Structural equality of values. -/
def beq : Json → Json → Bool
  | null, null => true
  | bool a, bool b => a == b
  | num a, num b => a == b
  | str a, str b => a == b
  | arr xs, arr ys => beqItems xs ys
  | obj xs, obj ys => beqFields xs ys
  | _, _ => false

/-- Structural equality of item lists. -/
def beqItems : List Json → List Json → Bool
  | [], [] => true
  | x :: xs, y :: ys => beq x y && beqItems xs ys
  | _, _ => false

/-- Structural equality of field lists, order included. -/
def beqFields : List (String × Json) → List (String × Json) → Bool
  | [], [] => true
  | (k, x) :: xs, (l, y) :: ys => k == l && beq x y && beqFields xs ys
  | _, _ => false

end

instance : BEq Json := ⟨beq⟩

mutual

/-- The number of arrays and objects on the longest way into the value. -/
def depth : Json → Nat
  | arr items => depthItems items + 1
  | obj fields => depthFields fields + 1
  | _ => 0

/-- The greatest depth of the items. -/
def depthItems : List Json → Nat
  | [] => 0
  | x :: xs => max (depth x) (depthItems xs)

/-- The greatest depth of the field values. -/
def depthFields : List (String × Json) → Nat
  | [] => 0
  | (_, x) :: xs => max (depth x) (depthFields xs)

end

mutual

/-- The value with each key of an object once: the last value of a key, at its first place. -/
def distinct : Json → Json
  | arr items => arr (distinctItems items)
  | obj fields => obj (distinctFields [] fields)
  | v => v

/-- The items with each key of an object once. -/
def distinctItems : List Json → List Json
  | [] => []
  | x :: xs => distinct x :: distinctItems xs

/-- The fields with each key once, after those already there. -/
def distinctFields (acc : List (String × Json)) : List (String × Json) → List (String × Json)
  | [] => acc
  | (key, x) :: xs => distinctFields (insert acc key (distinct x)) xs

end

end Json

end WireContract
