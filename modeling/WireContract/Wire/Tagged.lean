import WireContract.Json.Reader

/-!
# Tagged members

A member of a union travels as an object of two keys: `type` holds the tag, and the tag is the key
of the value.  Reading takes the object as a whole first.  A missing value is null, other keys are
ignored, and the key `type` is taken by the tag, so that a member with the tag `type` has no value.
-/

namespace WireContract.Wire

open Json

/-- The key of the tag. -/
def tagKey : String := "type"

/-- A tag and the value under it. -/
structure Tagged where
  tag : String
  value : Json

namespace Tagged

/-- The member that an object gives. -/
def ofFields (fields : List (String × Json)) : Except Fault Tagged :=
  match fields.lookup tagKey with
  | none => .error (.mismatch (.missingField tagKey))
  | some (.str tag) => .ok ⟨tag, ((Json.erase fields tagKey).lookup tag).getD .null⟩
  | some found => .error (.mismatch (.tagNotText found))

/-- Reads a member. -/
def read (r : Reader) : Draft → Except Fault Tagged
  | .obj fields stop => do
    match ← (Draft.obj fields stop).complete r.limit with
    | .obj fields => ofFields fields
    | found => .error (.mismatch (.tagNotText found))
  | d => unexpected "a map" d

/-- The object of a member. -/
def toJson (m : Tagged) : Json :=
  .obj [(tagKey, .str m.tag), (m.tag, m.value)]

end Tagged

end WireContract.Wire
