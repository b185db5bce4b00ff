import WireContract.Rust.Item
import WireContract.Text.Blank

/-!
# Documentation and derived traits
-/

namespace WireContract.Emit

open Rust

/-- One documentation attribute for each line; none if there is nothing but blanks. -/
def docLines (docs : Option String) : List Attr :=
  match docs with
  | none => []
  | some docs =>
    (Text.lines (Text.trim docs.toList)).map fun line =>
      .doc (" " ++ String.ofList (Text.trimRight line))

/-- Documentation lines that are known in advance. -/
def notes (lines : List String) : List Attr :=
  lines.map fun line => .doc (" " ++ line)

/-- The traits that a value type derives. -/
def derivedTraits (orderable default serde : Bool) : List Path :=
  [["Debug"], ["Clone"], ["PartialEq"]].map Path.ofWords ++
    (if orderable then [["Eq"], ["PartialOrd"], ["Ord"], ["Hash"]].map Path.ofWords else []) ++
    (if default then [.ofWords ["Default"]] else []) ++
    if serde then [["serde", "Serialize"], ["serde", "Deserialize"]].map Path.ofWords else []

/-- The attribute that derives traits for a value type. -/
def deriveAttr (orderable default serde : Bool) : Attr :=
  .ofArgs "derive" ((derivedTraits orderable default serde).map .path)

end WireContract.Emit
