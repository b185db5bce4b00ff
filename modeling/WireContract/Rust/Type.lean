import WireContract.Rust.Generic

/-!
# Paths and types

A path names an item; a type is a path with arguments, a reference, a slice, or a trait object or
unnamed type given by a bound.  Each has its tokens and its layout.
-/

namespace WireContract.Rust

open Layout (Doc)

/-- A path of identifiers, possibly starting outside the crate (`::std::fmt`). -/
structure Path where
  absolute : Bool
  segments : List Ident
  /-- The generic arguments of the first segments; the segments after them have none. -/
  generics : List Generics
deriving DecidableEq, Repr, Inhabited

namespace Path

/-- The path with the given words as segments. -/
def ofWords (words : List String) : Path := ⟨false, words.map Ident.mk, []⟩

/-- A path into the standard library. -/
def std (words : List String) : Path := ⟨true, ("std" :: words).map Ident.mk, []⟩

/-- The path of an identifier alone. -/
def ofIdent (i : Ident) : Path := ⟨false, [i], []⟩

/-- The item `i` inside the item at the path. -/
def push (p : Path) (i : Ident) : Path := { p with segments := p.segments ++ [i] }

/-- The item at the words inside the item at the path. -/
def join (p : Path) (words : List String) : Path :=
  { p with segments := p.segments ++ words.map Ident.mk }

/-- The segments as they are written, each with its arguments. -/
def segmentTexts : List Ident → List Generics → List String
  | [], _ => []
  | i :: is, gs => (i.text ++ (gs.headD .none).text) :: segmentTexts is gs.tail

/-- The path as it is written, without blanks. -/
def text (p : Path) : String :=
  (if p.absolute then "::" else "") ++ Text.join "::" (segmentTexts p.segments p.generics)

/-- The segments with `::` between them. -/
def segmentTokens : List Ident → List Generics → Tokens
  | [], _ => []
  | [i], gs => Tokens.word i.text ++ (gs.headD .none).tokens
  | i :: j :: is, gs =>
    Tokens.word i.text ++ (gs.headD .none).tokens ++ Tokens.marks "::" ++
      segmentTokens (j :: is) gs.tail

/-- The tokens of a path. -/
def tokens (p : Path) : Tokens :=
  (if p.absolute then Tokens.marks "::" else []) ++ segmentTokens p.segments p.generics

/-- The layout of segments whose arguments are laid out as `args` says. -/
def segmentsDoc (args : Generics → Doc) : List Ident → List Generics → Doc
  | [], _ => .nil
  | [i], gs => .word i.text ++ args (gs.headD .none)
  | i :: j :: is, gs =>
    .word i.text ++ args (gs.headD .none) ++ .word "::" ++ segmentsDoc args (j :: is) gs.tail

/-- The layout of a path to a type. -/
def typeDoc (p : Path) : Doc :=
  (if p.absolute then .word "::" else .nil) ++ segmentsDoc Generics.doc p.segments p.generics

/-- The layout of a path to a value. -/
def valueDoc (p : Path) : Doc :=
  (if p.absolute then .word "::" else .nil) ++ segmentsDoc Generics.valueDoc p.segments p.generics

/-- Whether every segment is an identifier. -/
def isSpelled (p : Path) : Bool :=
  p.segments.all fun i => isSpelling i.text

end Path

/-- A type. -/
inductive Ty where
  /-- A path with lifetimes and types as arguments. -/
  | named (path : Path) (lifetimes : List String) (args : List Ty)
  | reference (lifetime : Option String) (mutable : Bool) (target : Ty)
  | slice (item : Ty)
  /-- A trait object. -/
  | dyn (bound : Ty)
  /-- Some type with a bound. -/
  | some (bound : Ty)
deriving Repr

namespace Ty

/-- A type without arguments. -/
def ofPath (p : Path) : Ty := .named p [] []

/-- The type of a plain name. -/
def ofWord (w : String) : Ty := ofPath (.ofWords [w])

/-- A plain name with arguments. -/
def apply (w : String) (args : List Ty) : Ty := .named (.ofWords [w]) [] args

/-- A shared reference. -/
def ref (t : Ty) : Ty := .reference none false t

/-- A reference that may be written through. -/
def refMut (t : Ty) : Ty := .reference none true t

/-- A reference that lives for the whole program. -/
def refStatic (t : Ty) : Ty := .reference (.some "static") false t

mutual

/-- The tokens of a type. -/
def tokens : Ty → Tokens
  | .named p lifetimes args =>
    p.tokens ++ Tokens.angles (lifetimes.map Tokens.lifetime ++ tokensOfAll args)
  | .reference lifetime mutable t =>
    Tokens.marks "&" ++ (lifetime.map Tokens.lifetime).getD [] ++
      (if mutable then Tokens.word "mut" else []) ++ tokens t
  | .slice t => Tokens.brackets (tokens t)
  | .dyn t => Tokens.word "dyn" ++ tokens t
  | .some t => Tokens.word "impl" ++ tokens t

/-- The tokens of each type. -/
def tokensOfAll : List Ty → List Tokens
  | [] => []
  | t :: ts => tokens t :: tokensOfAll ts

end

mutual

/-- The layout of a type. -/
def doc : Ty → Doc
  | .named p lifetimes args =>
    p.typeDoc ++
      .angled Layout.indentWidth ((lifetimes.map fun l => .word ("'" ++ l)) ++ docOfAll args)
  | .reference lifetime mutable t =>
    let lifetime := (lifetime.map fun l => "'" ++ l ++ " ").getD ""
    .word ("&" ++ lifetime ++ if mutable then "mut " else "") ++ doc t
  | .slice t => .word "[" ++ doc t ++ .word "]"
  | .dyn t => .word "dyn " ++ doc t
  | .some t => .word "impl " ++ doc t

/-- The layout of each type. -/
def docOfAll : List Ty → List Doc
  | [] => []
  | t :: ts => doc t :: docOfAll ts

end

end Ty

end WireContract.Rust
