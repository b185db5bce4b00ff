import WireContract.Schema.Error

/-!
# The registry of declarations

A registry holds the declarations of a document in the order of their names, each name once.
Resolving a reference looks every declared name in it up.  Following an alias goes through targets
that are themselves names until one is not.
-/

namespace WireContract.Schema

/-- The declarations of a document, ordered by name. -/
structure Registry where
  declarations : List Declaration
deriving DecidableEq, Repr, Inhabited

/-- A reference with the kind of each declared name. -/
inductive Resolved where
  | primitive (p : Primitive)
  | binary
  | optional (inner : Resolved)
  | list (item : Resolved)
  | set (item : Resolved)
  | map (key value : Resolved)
  | declared (name : QualifiedName) (kind : Kind)
  | external (name : QualifiedName) (fallback : Resolved)
deriving DecidableEq, Repr, Inhabited

/-- Lists, sets and maps. -/
def Resolved.isContainer : Resolved → Bool
  | list _ | set _ | map _ _ => true
  | _ => false

/-- The first declaration whose name was declared before. -/
def firstDuplicate? (seen : List QualifiedName) : List Declaration → Option QualifiedName
  | [] => none
  | d :: ds => if seen.contains d.name then some d.name else firstDuplicate? (d.name :: seen) ds

namespace Registry

/-- The registry of some declarations, unless two share a name. -/
def ofDeclarations (ds : List Declaration) : Except SchemaError Registry :=
  match firstDuplicate? [] ds with
  | some name => .error (.duplicateDeclaration name)
  | none => .ok ⟨ds.mergeSort fun a b => a.name.le b.name⟩

/-- The declaration with a name. -/
def get? (reg : Registry) (name : QualifiedName) : Option Declaration :=
  reg.declarations.find? (·.name == name)

/-- Whether a name is declared. -/
def contains (reg : Registry) (name : QualifiedName) : Bool :=
  (reg.get? name).isSome

/-- The number of declarations. -/
def size (reg : Registry) : Nat :=
  reg.declarations.length

/-- The modules that hold a declaration, in order. -/
def modules (reg : Registry) : List String :=
  (reg.declarations.map (·.name.module)).eraseDups

/-- The declarations of a module, ordered by name. -/
def moduleDeclarations (reg : Registry) (module : String) : List Declaration :=
  reg.declarations.filter (·.name.module == module)

/-! ## Resolution -/

/-- The reference with all its names looked up, or the first name that is not declared. -/
def resolve (reg : Registry) : TypeRef → Except QualifiedName Resolved
  | .primitive p => .ok (.primitive p)
  | .binary => .ok .binary
  | .optional inner => return .optional (← reg.resolve inner)
  | .list item => return .list (← reg.resolve item)
  | .set item => return .set (← reg.resolve item)
  | .map key value => return .map (← reg.resolve key) (← reg.resolve value)
  | .declared name =>
    match reg.get? name with
    | some d => .ok (.declared name d.kind)
    | none => .error name
  | .external name fallback => return .external name (← reg.resolve fallback)

/-- Follows alias targets from `current`; `visited` holds the aliases passed, the latest first. -/
def followAlias (reg : Registry) (start : QualifiedName) :
    (fuel : Nat) → (visited : List QualifiedName) → (current : QualifiedName) →
    Except SchemaError Resolved
  | 0, _, current => .error (.unresolvedType current start.text)
  | fuel + 1, visited, current =>
    match reg.get? current with
    | none => .error (.unresolvedType current start.text)
    | some (.alias a) =>
      if visited.contains current then
        let cycle := (visited.takeWhile (· != current)).reverse
        .error (.aliasCycle (current :: cycle ++ [current]))
      else
        match a.target with
        | .declared next => reg.followAlias start fuel (current :: visited) next
        | other =>
          match reg.resolve other with
          | .ok r => .ok r
          | .error name => .error (.unresolvedType name a.name.text)
    | some d => .ok (.declared current d.kind)

/-- The end of the chain of aliases that starts at a name.  A name that is no alias ends its own
chain. -/
def aliasEnd (reg : Registry) (name : QualifiedName) : Except SchemaError Resolved :=
  reg.followAlias name (reg.size + 2) [] name

/-! ## Properties of references -/

/-- Whether values of the reference are lists, sets or maps, directly or through aliases. -/
def isCollection (reg : Registry) : TypeRef → Bool
  | .list _ | .set _ | .map _ _ => true
  | .declared name =>
    match reg.aliasEnd name with
    | .ok r => r.isContainer
    | .error _ => false
  | .external _ fallback => reg.isCollection fallback
  | _ => false

end Registry

/-- The reference behind external names. -/
def TypeRef.withoutExternals : TypeRef → TypeRef
  | .external _ fallback => fallback.withoutExternals
  | r => r

namespace Registry

/-- Follows aliases and external fallbacks to a type that can be a key; `visited` holds the names
passed. -/
def canBeKeyAfter (reg : Registry) :
    (fuel : Nat) → (visited : List QualifiedName) → TypeRef → Bool
  | 0, _, _ => false
  | fuel + 1, visited, r =>
    match r.withoutExternals with
    | .primitive p => p.canBeKey
    | .binary => true
    | .declared name =>
      if visited.contains name then false
      else
        match reg.get? name with
        | some (.enum _) => true
        | some (.alias a) => reg.canBeKeyAfter fuel (name :: visited) a.target
        | _ => false
    | _ => false

/-- Whether values of the reference can be keys of a JSON object. -/
def canBeKey (reg : Registry) (r : TypeRef) : Bool :=
  reg.canBeKeyAfter (reg.size + 2) [] r

end Registry

/-- Whether values of the reference have a total order, given the declarations that do. -/
def TypeRef.isOrderable (orderable : List QualifiedName) : TypeRef → Bool
  | .primitive p => p.isOrderable
  | .binary => true
  | .optional inner | .list inner | .set inner => inner.isOrderable orderable
  | .map key value => key.isOrderable orderable && value.isOrderable orderable
  | .declared name => orderable.contains name
  | .external _ fallback => fallback.isOrderable orderable

namespace Registry

/-- Whether all references of a name's declaration are orderable relative to a set of names. -/
def keepsOrder (reg : Registry) (orderable : List QualifiedName) (name : QualifiedName) : Bool :=
  match reg.get? name with
  | some d => d.references.all fun (_, r) => r.isOrderable orderable
  | none => true

/-- Removes names until all that remain are orderable relative to each other. -/
def demote (reg : Registry) : (rounds : Nat) → List QualifiedName → List QualifiedName
  | 0, names => names
  | rounds + 1, names =>
    let kept := names.filter (reg.keepsOrder names)
    if kept.length == names.length then names else reg.demote rounds kept

/-- Aliases, enumerations and objects: the declarations that may have ordered values. -/
def orderCandidates (reg : Registry) : List QualifiedName :=
  (reg.declarations.filter fun d => d.kind != .union && d.kind != .error).map (·.name)

/-- The declarations whose values have a total order. -/
def orderable (reg : Registry) : List QualifiedName :=
  reg.demote (reg.size + 1) reg.orderCandidates

end Registry

end WireContract.Schema
