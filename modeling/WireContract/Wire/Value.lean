import WireContract.Json.Basic
import WireContract.Wire.Instant
import WireContract.Wire.Uuid

/-!
# Values of a contract

A `Value` is a value of some type of a contract, with what the type alone decides left out: aliases
leave no trace, and a record is the list of its fields in the order of declaration.

`Value.compare` is the order of values of one type: fields in order of declaration, no value before
a value, lists and maps item by item, texts by their characters, the known values of an
enumeration in order of declaration and before unknown ones.  Doubles, free JSON and unions have no
order; it does not tell them apart.
-/

namespace WireContract.Wire

/-- A value of some type of a contract. -/
inductive Value where
  | text (s : String)
  | int (n : Int)
  | double (x : Double)
  | bool (b : Bool)
  | instant (t : Instant)
  | uuid (u : Uuid)
  | bytes (bs : List UInt8)
  | any (v : Json)
  | absent
  | present (v : Value)
  | list (items : List Value)
  | map (entries : List (Value × Value))
  /-- The value of an enumeration with its place in the declaration. -/
  | known (index : Nat) (name : String)
  /-- A text that an enumeration does not declare, in upper case. -/
  | unknown (name : String)
  | record (fields : List Value)
  | member (tag : String) (v : Value)
  /-- A member that a union does not declare. -/
  | unknownMember (tag : String) (v : Json)
deriving Inhabited

namespace Value

/-- Whether an enumeration or a union does not declare the value. -/
def isUnknown : Value → Bool
  | unknown _ | unknownMember _ _ => true
  | _ => false

/-- The text of a value of an enumeration. -/
def enumText : Value → String
  | known _ name | unknown name => name
  | _ => ""

/-- The tag of a value of a union. -/
def tag : Value → String
  | member t _ | unknownMember t _ => t
  | _ => ""

/-! ## Equality -/

mutual

/-- Structural equality. -/
def beq : Value → Value → Bool
  | text a, text b => a == b
  | int a, int b => a == b
  | double a, double b => a == b
  | bool a, bool b => a == b
  | instant a, instant b => a == b
  | uuid a, uuid b => a == b
  | bytes a, bytes b => a == b
  | any a, any b => a == b
  | absent, absent => true
  | present a, present b => beq a b
  | list as, list bs => beqItems as bs
  | map as, map bs => beqEntries as bs
  | known i a, known j b => i == j && a == b
  | unknown a, unknown b => a == b
  | record as, record bs => beqItems as bs
  | member s a, member t b => s == t && beq a b
  | unknownMember s a, unknownMember t b => s == t && a == b
  | _, _ => false

/-- Structural equality of lists of values. -/
def beqItems : List Value → List Value → Bool
  | [], [] => true
  | a :: as, b :: bs => beq a b && beqItems as bs
  | _, _ => false

/-- Structural equality of map entries. -/
def beqEntries : List (Value × Value) → List (Value × Value) → Bool
  | [], [] => true
  | (k, a) :: as, (l, b) :: bs => beq k l && beq a b && beqEntries as bs
  | _, _ => false

end

instance : BEq Value := ⟨beq⟩

/-! ## Order -/

/-- The place of a value among values of other forms. -/
def rank : Value → Nat
  | absent | known _ _ => 0
  | _ => 1

mutual

/-- The order of values of one type. -/
def compare : Value → Value → Ordering
  | text a, text b => Ord.compare a b
  | int a, int b => Ord.compare a b
  | bool a, bool b => Ord.compare a b
  | instant a, instant b => Ord.compare a.parts b.parts
  | uuid a, uuid b => Ord.compare (a.digits.map (·.val)) (b.digits.map (·.val))
  | bytes a, bytes b => Ord.compare (a.map (·.toNat)) (b.map (·.toNat))
  | present a, present b => compare a b
  | list as, list bs => compareItems as bs
  | map as, map bs => compareEntries as bs
  | known i _, known j _ => Ord.compare i j
  | unknown a, unknown b => Ord.compare a b
  | record as, record bs => compareItems as bs
  | a, b => Ord.compare a.rank b.rank

/-- The first difference decides; a list comes before those it begins. -/
def compareItems : List Value → List Value → Ordering
  | [], [] => .eq
  | [], _ :: _ => .lt
  | _ :: _, [] => .gt
  | a :: as, b :: bs =>
    match compare a b with
    | .eq => compareItems as bs
    | o => o

/-- Entries are compared by key and then by value. -/
def compareEntries : List (Value × Value) → List (Value × Value) → Ordering
  | [], [] => .eq
  | [], _ :: _ => .lt
  | _ :: _, [] => .gt
  | (k, a) :: as, (l, b) :: bs =>
    match compare k l with
    | .eq =>
      match compare a b with
      | .eq => compareEntries as bs
      | o => o
    | o => o

end

/-! ## Sorted collections -/

/-- Adds a value to a sorted list, unless an equal one is there; tells whether it was added. -/
def insertItem (x : Value) : List Value → List Value × Bool
  | [] => ([x], true)
  | y :: ys =>
    match compare x y with
    | .lt => (x :: y :: ys, true)
    | .eq => (y :: ys, false)
    | .gt =>
      let (rest, added) := insertItem x ys
      (y :: rest, added)

/-- The values in their order, equal ones once. -/
def collect (items : List Value) : List Value :=
  items.foldl (fun sorted x => (insertItem x sorted).1) []

/-- Sets a key of a sorted list of entries. -/
def insertEntry (entry : Value × Value) : List (Value × Value) → List (Value × Value)
  | [] => [entry]
  | (k, v) :: rest =>
    match compare entry.1 k with
    | .lt => entry :: (k, v) :: rest
    | .eq => (k, entry.2) :: rest
    | .gt => (k, v) :: insertEntry entry rest

end Value

end WireContract.Wire
