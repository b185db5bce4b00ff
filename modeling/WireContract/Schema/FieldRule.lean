import WireContract.Schema.Registry

/-!
# How fields are read and written

A field is required, unless its values are lists, sets or maps, which read nothing and null as
empty, or its reference is an optional, which is left out when there is no value.
-/

namespace WireContract.Schema

/-- What a missing value of a field means. -/
inductive FieldRule where
  /-- The field has to be there. -/
  | required
  /-- A field that is missing or null is empty; it is always written. -/
  | emptyDefault
  /-- A field that is missing or null has no value; without a value it is not written. -/
  | omitted
deriving DecidableEq, Repr

/-- The rule for a field of a reference. -/
def Registry.fieldRule (reg : Registry) (r : TypeRef) : FieldRule :=
  if reg.isCollection r then .emptyDefault
  else
    match r with
    | .optional _ => .omitted
    | _ => .required

end WireContract.Schema
