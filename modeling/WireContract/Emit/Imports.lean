import WireContract.Rust.Item
import WireContract.Schema.Name

/-!
# Imports of a generated file

A generated file lies one level below the module of its package, so that `super` is the package
itself.  Other packages are imported, each under the last segment of its path; a segment that is
taken or reserved gets the least numeric suffix that is free.
-/

namespace WireContract.Emit

open Rust Schema

/-- The names that a generated file relies on. -/
def reservedAliases : List String :=
  ["alloc", "core", "serde", "serde_json", "std", "self", "super", "crate"]

/-- The imports of a file: the module of its package, and an alias for each module it imports, in
the order of the modules. -/
structure Imports where
  module : String
  aliases : List (String × String)
deriving DecidableEq, Repr

/-- The last segment of a module path. -/
def lastSegment (module : String) : String :=
  (Text.split '.' module).getLast?.getD module

/-- The segment with a suffix; none for `0`. -/
def suffixed (base : String) : Nat → String
  | 0 => base
  | n + 1 => base ++ "_" ++ toString (n + 1)

/-- The first of the suffixes from `n` on, within `fuel` steps, that is free. -/
def firstFree (isTaken : String → Bool) (base : String) : (fuel n : Nat) → String
  | 0, n => suffixed base n
  | fuel + 1, n =>
    if isTaken (suffixed base n) then firstFree isTaken base fuel (n + 1) else suffixed base n

/-- The alias of a module when some names are taken.  At most as many suffixes are in use as names
are taken or are keywords. -/
def pickAlias (taken : List String) (module : String) : String :=
  firstFree (fun name => taken.contains name || isKeyword name) (lastSegment module)
    (taken.length + keywords.length + 1) 0

/-- The aliases of modules, given in order, when some names are taken. -/
def assign (taken : List String) : List String → List (String × String)
  | [] => []
  | m :: ms =>
    let name := pickAlias taken m
    (m, name) :: assign (name :: taken) ms

namespace Imports

/-- The imports of a file in a module that mentions other modules; the aliases avoid the names in
`reserved`. -/
def ofModules (module : String) (mentioned reserved : List String) : Imports :=
  let foreign := (mentioned.filter (· != module)).eraseDups.mergeSort fun a b => decide (a ≤ b)
  ⟨module, assign (reservedAliases ++ reserved) foreign⟩

/-- The alias of an imported module. -/
def alias? (imports : Imports) (module : String) : Option String :=
  (imports.aliases.find? (·.1 == module)).map (·.2)

/-- The number of imported modules. -/
def size (imports : Imports) : Nat := imports.aliases.length

/-- How many modules the root of the generated tree lies above the file. -/
def depth (imports : Imports) : Nat :=
  (Text.split '.' imports.module).length + 1

/-- The path of a module from the file through the root of the generated tree. -/
def fromRoot (imports : Imports) (module : String) : Path :=
  ⟨false, List.replicate imports.depth ⟨"super"⟩ ++ (Text.split '.' module).map Ident.ofName, []⟩

/-- The path of a declared type from the file. -/
def pathTo (imports : Imports) (name : QualifiedName) : Path :=
  let type := Ident.ofName name.name
  if name.module == imports.module then ⟨false, [⟨"super"⟩, type], []⟩
  else
    match imports.alias? name.module with
    | some a => ⟨false, [Ident.ofName a, type], []⟩
    | none => (imports.fromRoot name.module).push type

/-- The import items, in the order of the modules. -/
def items (imports : Imports) : List Item :=
  imports.aliases.map fun (module, name) =>
    let what := if lastSegment module == name then .item else .renamed (Ident.ofName name)
    .use [] false (imports.fromRoot module) what

end Imports

end WireContract.Emit
