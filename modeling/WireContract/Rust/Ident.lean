import WireContract.Text.Ident
import WireContract.Text.Words

/-!
# Rust identifiers

A name becomes an identifier by escaping: a keyword is written as a raw identifier (`r#type`), and
one of the few that have no raw form gets a trailing underscore (`self_`).  The escaped text is an
identifier only if its characters allow it; `Ident.ofText?` decides that.
-/

namespace WireContract.Rust

/-- The keywords of Rust, in use and reserved. -/
def keywords : List String := [
  "abstract", "as", "async", "await", "become", "box", "break", "const", "continue", "crate",
  "do", "dyn", "else", "enum", "extern", "false", "final", "fn", "for", "gen", "if", "impl",
  "in", "let", "loop", "macro", "match", "mod", "move", "mut", "override", "priv", "pub", "ref",
  "return", "self", "Self", "static", "struct", "super", "trait", "true", "try", "type",
  "typeof", "union", "unsafe", "unsized", "use", "virtual", "where", "while", "yield"]

/-- The names that cannot be written as raw identifiers. -/
def unescapable : List String := ["self", "Self", "super", "crate", "_"]

/-- Whether the word is a keyword. -/
def isKeyword (word : String) : Bool :=
  keywords.contains word

/-- The name as an identifier is spelled: raw if it is a keyword. -/
def rawIfKeyword (name : String) : String :=
  if unescapable.contains name then name ++ "_"
  else if isKeyword name then "r#" ++ name
  else name

/-- The spelling of a record field or error parameter. -/
def fieldName (name : String) : String :=
  rawIfKeyword (Text.snake name)

/-- Whether the text spells an identifier, raw or not.  A raw identifier cannot be one of the names
without a raw form. -/
def isSpelling (s : String) : Bool :=
  match s.toList with
  | 'r' :: '#' :: rest => Text.isIdent rest && !unescapable.contains (String.ofList rest)
  | cs => Text.isIdent cs

/-- An identifier by its spelling. -/
structure Ident where
  text : String
deriving DecidableEq, Repr, Inhabited

namespace Ident

/-- The identifier with a spelling, if it is one. -/
def ofText? (s : String) : Option Ident :=
  if isSpelling s then some ⟨s⟩ else none

/-- The identifier of a name, keywords escaped. -/
def ofName (name : String) : Ident := ⟨rawIfKeyword name⟩

/-- The identifier of a field or parameter. -/
def field (name : String) : Ident := ⟨fieldName name⟩

/-- The identifier of a type generated beside a declared one. -/
def companion (name suffix : String) : Ident := ofName (name ++ suffix)

/-- The name kept for values and members that a contract does not know. -/
def unknownVariant : String := "Unknown"

/-- A variant, kept apart from the one for unknown values by an underscore. -/
def variant (name : String) : Ident :=
  if name == unknownVariant then ⟨unknownVariant ++ "_"⟩ else ofName name

/-- The variant of an enum value. -/
def enumVariant (value : String) : Ident := variant (Text.variant value)

/-- The variant of a union member. -/
def memberVariant (tag : String) : Ident := variant (Text.pascal tag)

/-- The name of the visitor method for members that a contract does not know. -/
def unknownVisitor : String := "visit_unknown"

/-- The visitor method of a union member. -/
def visitMethod (tag : String) : Ident :=
  let name := "visit_" ++ Text.snake tag
  if name == unknownVisitor then ⟨unknownVisitor ++ "_"⟩ else ⟨name⟩

end Ident

end WireContract.Rust
