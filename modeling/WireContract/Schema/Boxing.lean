import WireContract.Graph.Reach
import WireContract.Schema.Registry

/-!
# Members that need a box

A type that holds itself in place would have no finite size.  A member slot is boxed when the type
that it holds in place can get back to the owner along such slots.
-/

namespace WireContract.Schema

/-- A declaration and one of its members; the member of an alias target is empty. -/
abbrev Slot := QualifiedName × String

namespace Registry

/-- Whether a name is declared as a type, and not as an error. -/
def isType (reg : Registry) (name : QualifiedName) : Bool :=
  match reg.get? name with
  | some d => d.kind != .error
  | none => false

/-- The declared types that a reference holds in place. -/
def heldTypes (reg : Registry) (r : TypeRef) : List QualifiedName :=
  r.heldByValue.toList.filter reg.isType

/-- The types that a type holds in place. -/
def heldBy (reg : Registry) (owner : QualifiedName) : List QualifiedName :=
  match reg.get? owner with
  | some d => d.references.flatMap fun (_, r) => reg.heldTypes r
  | none => []

/-- Whether a value of `a` holds a value of `b` in place, at any depth, or is one. -/
def holds (reg : Registry) (a b : QualifiedName) : Bool :=
  a == b || Graph.reaches reg.heldBy reg.size a b

/-- The slots that need a box, in order of declaration. -/
def boxedSlots (reg : Registry) : List Slot :=
  (reg.declarations.filter (·.kind != .error)).flatMap fun d =>
    (d.references.filter fun (_, r) => (reg.heldTypes r).any (reg.holds · d.name)).map
      fun (member, _) => (d.name, member)

end Registry

end WireContract.Schema
