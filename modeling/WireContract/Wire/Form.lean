import WireContract.Schema.FieldRule

/-!
# The form of a reference

On the wire, aliases and external names do not show.  The form of a reference is what remains when
they are followed to their ends: how many optionals lie around the value, and what the value inside
them is.
-/

namespace WireContract.Wire

open Schema

/-- What a value is when no alias, external name or optional is left around it. -/
inductive Base where
  | primitive (p : Primitive)
  | binary
  | list (item : TypeRef)
  | set (item : TypeRef)
  | map (key value : TypeRef)
  | enum (d : Enum)
  | object (d : Object)
  | union (d : Union)
deriving DecidableEq, Repr, Inhabited

/-- A value inside a number of optionals. -/
structure Form where
  optionals : Nat
  base : Base
deriving DecidableEq, Repr, Inhabited

/-- The number of optionals around a reference, and the reference inside them. -/
def peel : TypeRef → Nat × TypeRef
  | .optional inner =>
    let (n, core) := peel inner
    (n + 1, core)
  | .external _ fallback => peel fallback
  | r => (0, r)

/-- The form of a reference, through at most `fuel` aliases. -/
def formWithin (reg : Registry) : (fuel : Nat) → TypeRef → Option Form
  | 0, _ => none
  | fuel + 1, r =>
    let (n, core) := peel r
    match core with
    | .primitive p => some ⟨n, .primitive p⟩
    | .binary => some ⟨n, .binary⟩
    | .list item => some ⟨n, .list item⟩
    | .set item => some ⟨n, .set item⟩
    | .map key value => some ⟨n, .map key value⟩
    | .declared name =>
      match reg.get? name with
      | some (.alias a) => (formWithin reg fuel a.target).map fun f => ⟨n + f.optionals, f.base⟩
      | some (.enum d) => some ⟨n, .enum d⟩
      | some (.object d) => some ⟨n, .object d⟩
      | some (.union d) => some ⟨n, .union d⟩
      | _ => none
    | _ => none

/-- The form of a reference, if its names lead to one. -/
def form? (reg : Registry) (r : TypeRef) : Option Form :=
  formWithin reg (reg.size + 1) r

/-- Whether no value at all is a value of the reference. -/
def isNullable (reg : Registry) (r : TypeRef) : Bool :=
  match form? reg r with
  | some f => 0 < f.optionals
  | none => false

end WireContract.Wire
