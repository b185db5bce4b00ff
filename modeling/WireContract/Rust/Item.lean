import WireContract.Rust.Expr

/-!
# Attributes, items and files

The items that generated files are made of, with their tokens and their layout.  The layout of an
item has no line end after it; the item list or block around it adds that.
-/

namespace WireContract.Rust

open Layout (Doc)

/-! ## Attributes -/

/-- An argument of an attribute. -/
inductive AttrArg where
  | path (p : Path)
  | keyed (key : String) (value : String)
deriving DecidableEq, Repr

/-- An attribute. -/
inductive Attr where
  /-- A line of documentation. -/
  | doc (line : String)
  | flag (path : Path)
  | list (path : Path) (args : List AttrArg)
  | valued (path : Path) (value : String)
deriving DecidableEq, Repr

/-- The tokens of an argument. -/
def AttrArg.tokens : AttrArg → Tokens
  | .path p => p.tokens
  | .keyed key value => Tokens.word key ++ Tokens.marks "=" ++ [.literal value]

/-- The layout of an argument. -/
def AttrArg.doc : AttrArg → Doc
  | .path p => .word p.text
  | .keyed key value => .word (key ++ " = " ++ Text.quoted value)

namespace Attr

/-- An attribute with arguments. -/
def ofArgs (name : String) (args : List AttrArg) : Attr := .list (.ofWords [name]) args

/-- The result of the function has to be used. -/
def mustUse : Attr := .flag (.ofWords ["must_use"])

/-- The tokens between the brackets. -/
def content : Attr → Tokens
  | .doc line => Tokens.word "doc" ++ Tokens.marks "=" ++ [.literal line]
  | .flag p => p.tokens
  | .list p args => p.tokens ++ Tokens.parens (Tokens.commas (args.map AttrArg.tokens))
  | .valued p value => p.tokens ++ Tokens.marks "=" ++ [.literal value]

/-- The tokens of an attribute of the item after it. -/
def tokens (a : Attr) : Tokens := Tokens.marks "#" ++ Tokens.brackets a.content

/-- The tokens of an attribute of the file or module around it. -/
def innerTokens (a : Attr) : Tokens := Tokens.marks "#!" ++ Tokens.brackets a.content

/-- The line without the blanks at its end. -/
private def unpadded (line : String) : String :=
  String.ofList (line.toList.reverse.dropWhile (· == ' ')).reverse

/-- The layout of an attribute, after the given mark, and the break after it. -/
def docWith (mark comment : String) : Attr → Doc
  | .doc line => .word comment ++ .word (unpadded line) ++ .hard
  | .flag p => .word (mark ++ "[" ++ p.text ++ "]") ++ .space
  | .list p args =>
    let arguments : Doc :=
      match args with
      | [] => .nil
      | _ =>
        .together Layout.indentWidth (.zero ++ .separated (args.map AttrArg.doc) ++
          .brk { offset := -Layout.indentWidth } .nil)
    .word (mark ++ "[" ++ p.text ++ "(") ++ arguments ++ .word ")]" ++ .space
  | .valued p value => .word (mark ++ "[" ++ p.text ++ " = " ++ Text.quoted value ++ "]") ++ .space

/-- The attributes of the item after them. -/
def docs (attrs : List Attr) : Doc :=
  .concat (attrs.map (docWith "#" "///"))

/-- The attributes of the file or module around them. -/
def innerDocs (attrs : List Attr) : Doc :=
  .concat (attrs.map (docWith "#!" "//!"))

end Attr

/-! ## Parts of items -/

/-- The tokens of a visibility. -/
def visibilityTokens (isPublic : Bool) : Tokens :=
  if isPublic then Tokens.word "pub" else []

/-- The text of a visibility. -/
def visibility (isPublic : Bool) : String :=
  if isPublic then "pub " else ""

/-- A field of a record. -/
structure RecordField where
  attrs : List Attr
  isPublic : Bool
  name : Ident
  type : Ty
deriving Repr

/-- The tokens of a field. -/
def RecordField.tokens (f : RecordField) : Tokens :=
  f.attrs.flatMap Attr.tokens ++ visibilityTokens f.isPublic ++ Tokens.word f.name.text ++
    Tokens.marks ":" ++ f.type.tokens

/-- The layout of a field, with its comma. -/
def RecordField.doc (f : RecordField) : Doc :=
  Attr.docs f.attrs ++ .word (visibility f.isPublic ++ f.name.text ++ ": ") ++ f.type.doc ++
    .word ","

/-- A variant of an enum, with the type of its value. -/
structure Variant where
  attrs : List Attr
  name : Ident
  type : Option Ty
deriving Repr

/-- The tokens of a variant. -/
def Variant.tokens (v : Variant) : Tokens :=
  v.attrs.flatMap Attr.tokens ++ Tokens.word v.name.text ++
    match v.type with
    | some t => Tokens.parens t.tokens
    | none => []

/-- The layout of a variant, with its comma. -/
def Variant.doc (v : Variant) : Doc :=
  let value : Doc :=
    match v.type with
    | some t =>
      .together Layout.indentWidth
        (.word "(" ++ .zero ++ .listed Doc.closing [t.doc] ++ .word ")")
    | none => .nil
  Attr.docs v.attrs ++ .word v.name.text ++ value ++ .word ","

/-- How a method takes the value it is called on. -/
inductive Receiver where
  | byRef
  | byRefMut
  | byValue
deriving DecidableEq, Repr

/-- The tokens of a receiver. -/
def Receiver.tokens : Receiver → Tokens
  | .byRef => Tokens.marks "&" ++ Tokens.word "self"
  | .byRefMut => Tokens.marks "&" ++ Tokens.word "mut" ++ Tokens.word "self"
  | .byValue => Tokens.word "self"

/-- The text of a receiver. -/
def Receiver.text : Receiver → String
  | .byRef => "&self"
  | .byRefMut => "&mut self"
  | .byValue => "self"

/-- A type parameter with its bound, given at the parameter or after the signature. -/
structure TypeParam where
  name : String
  bound : Ty
  bindsLate : Bool
deriving Repr

/-- The head of a function. -/
structure Signature where
  name : Ident
  param : Option TypeParam
  receiver : Option Receiver
  args : List (Ident × Ty)
  result : Option Ty
deriving Repr

namespace Signature

/-- The tokens of the type parameters. -/
def paramTokens (s : Signature) : Tokens :=
  match s.param with
  | some p =>
    Tokens.angles [Tokens.word p.name ++
      if p.bindsLate then [] else Tokens.marks ":" ++ p.bound.tokens]
  | none => []

/-- The tokens of the bounds after the signature. -/
def whereTokens (s : Signature) : Tokens :=
  match s.param with
  | some p =>
    if p.bindsLate then
      Tokens.word "where" ++ Tokens.word p.name ++ Tokens.marks ":" ++ p.bound.tokens ++
        Tokens.marks ","
    else []
  | none => []

/-- The tokens of a signature. -/
def tokens (s : Signature) : Tokens :=
  let receiver := s.receiver.toList.map Receiver.tokens
  let args := s.args.map fun (i, t) => Tokens.word i.text ++ Tokens.marks ":" ++ t.tokens
  let result :=
    match s.result with
    | some t => Tokens.marks "->" ++ t.tokens
    | none => []
  Tokens.word "fn" ++ Tokens.word s.name.text ++ s.paramTokens ++
    Tokens.parens (Tokens.commas (receiver ++ args)) ++ result ++ s.whereTokens

/-- The layout of the type parameters. -/
def paramDoc (s : Signature) : Doc :=
  match s.param with
  | some p =>
    .angled 0 [.word p.name ++
      if p.bindsLate then .nil
      else .filled Layout.indentWidth (.word ": " ++ p.bound.doc)]
  | none => .nil

/-- The layout of a signature. -/
def doc (s : Signature) : Doc :=
  let receiver := s.receiver.toList.map fun r => Doc.word r.text
  let args := s.args.map fun (i, t) => Doc.word (i.text ++ ": ") ++ t.doc
  let result : Doc :=
    match s.result with
    | some t => .word " -> " ++ t.doc
    | none => .nil
  .word ("fn " ++ s.name.text) ++ s.paramDoc ++ .word "(" ++ .fixed ++
    .elements 0 (receiver ++ args) ++ .word ")" ++ .together (-Layout.indentWidth) result

/-- What stands between a signature and the brace of its body: the bounds, or a blank. -/
def beforeBody (s : Signature) : Doc :=
  match s.param with
  | some p =>
    if p.bindsLate then
      .hardOut ++ .word "where" ++ .hard ++ .word (p.name ++ ":") ++
        .filled 0 (.word " " ++ p.bound.doc) ++ .word "," ++ .hardOut
    else .word " "
  | none => .word " "

end Signature

/-- A member of an implementation. -/
inductive ImplMember where
  | const (attrs : List Attr) (name : String) (type : Ty) (value : Expr)
  | type (name : String) (value : Ty)
  | function (attrs : List Attr) (isPublic : Bool) (signature : Signature) (body : Body)
deriving Repr

namespace ImplMember

/-- The tokens of a member. -/
def tokens : ImplMember → Tokens
  | .const attrs name t e =>
    attrs.flatMap Attr.tokens ++ Tokens.word "pub" ++ Tokens.word "const" ++ Tokens.word name ++
      Tokens.marks ":" ++ t.tokens ++ Tokens.marks "=" ++ e.tokens ++ Tokens.marks ";"
  | .type name t =>
    Tokens.word "type" ++ Tokens.word name ++ Tokens.marks "=" ++ t.tokens ++ Tokens.marks ";"
  | .function attrs isPublic s b =>
    attrs.flatMap Attr.tokens ++ visibilityTokens isPublic ++ s.tokens ++ Tokens.braces b.tokens

/-- The layout of a member. -/
def doc : ImplMember → Doc
  | .const attrs name t e =>
    Attr.docs attrs ++
      .together 0 (.word ("pub const " ++ name ++ ": ") ++ t.doc ++ .word " = " ++ .fixed ++
        e.doc ++ .word ";")
  | .type name t =>
    .together Layout.indentWidth (.word ("type " ++ name ++ " = ") ++ .fixed ++
      .filled (-Layout.indentWidth) t.doc ++ .word ";")
  | .function attrs isPublic s b =>
    Attr.docs attrs ++ .braced (.word (visibility isPublic) ++ s.doc ++ s.beforeBody) b.lines

end ImplMember

/-- A member of a trait. -/
inductive TraitMember where
  | type (attrs : List Attr) (name : String)
  | function (attrs : List Attr) (signature : Signature)
deriving Repr

namespace TraitMember

/-- The tokens of a member. -/
def tokens : TraitMember → Tokens
  | .type attrs name =>
    attrs.flatMap Attr.tokens ++ Tokens.word "type" ++ Tokens.word name ++ Tokens.marks ";"
  | .function attrs s => attrs.flatMap Attr.tokens ++ s.tokens ++ Tokens.marks ";"

/-- The layout of a member. -/
def doc : TraitMember → Doc
  | .type attrs name =>
    Attr.docs attrs ++ .together Layout.indentWidth (.word ("type " ++ name ++ ";"))
  | .function attrs s => Attr.docs attrs ++ .together Layout.indentWidth (s.doc ++ .word ";")

end TraitMember

/-- What an import brings in from its path. -/
inductive Import where
  /-- The item at the path. -/
  | item
  /-- The item at the path, under another name. -/
  | renamed (name : Ident)
  /-- Everything inside the item at the path. -/
  | all
deriving DecidableEq, Repr

/-- The form of a structure. -/
inductive Fields where
  | unit
  /-- One public unnamed field. -/
  | single (type : Ty)
  | named (fields : List RecordField)
deriving Repr

/-! ## Items -/

/-- An item of a file or module. -/
inductive Item where
  | use (attrs : List Attr) (isPublic : Bool) (path : Path) (what : Import)
  /-- A module whose items are in another file. -/
  | module (attrs : List Attr) (isPublic : Bool) (name : Ident)
  /-- A module with its attributes and items. -/
  | inlineModule (attrs : List Attr) (isPublic : Bool) (name : Ident) (inner : List Attr)
      (items : List Item)
  | struct (attrs : List Attr) (isPublic : Bool) (name : Ident) (fields : Fields)
  | enum (attrs : List Attr) (name : Ident) (variants : List Variant)
  | trait (attrs : List Attr) (name : Ident) (members : List TraitMember)
  /-- An implementation: of a trait, or a type's own functions. -/
  | impl (lifetimes : List String) (ofTrait : Option Ty) (self : Ty) (members : List ImplMember)
deriving Repr

namespace Item

/-- The tokens of the end of an import. -/
def importTokens : Import → Tokens
  | .item => []
  | .renamed i => Tokens.word "as" ++ Tokens.word i.text
  | .all => Tokens.marks "::*"

/-- The text of the end of an import. -/
def importText : Import → String
  | .item => ""
  | .renamed i => " as " ++ i.text
  | .all => "::*"

mutual

/-- The tokens of an item. -/
def tokens : Item → Tokens
  | .use attrs isPublic p what =>
    attrs.flatMap Attr.tokens ++ visibilityTokens isPublic ++ Tokens.word "use" ++ p.tokens ++
      importTokens what ++ Tokens.marks ";"
  | .module attrs isPublic name =>
    attrs.flatMap Attr.tokens ++ visibilityTokens isPublic ++ Tokens.word "mod" ++
      Tokens.word name.text ++ Tokens.marks ";"
  | .inlineModule attrs isPublic name inner items =>
    attrs.flatMap Attr.tokens ++ visibilityTokens isPublic ++ Tokens.word "mod" ++
      Tokens.word name.text ++ Tokens.braces (inner.flatMap Attr.innerTokens ++ tokensOfAll items)
  | .struct attrs isPublic name fields =>
    attrs.flatMap Attr.tokens ++ visibilityTokens isPublic ++ Tokens.word "struct" ++
      Tokens.word name.text ++
      match fields with
      | .unit => Tokens.marks ";"
      | .single t => Tokens.parens (Tokens.word "pub" ++ t.tokens) ++ Tokens.marks ";"
      | .named fs => Tokens.braces (Tokens.commaEnded (fs.map RecordField.tokens))
  | .enum attrs name variants =>
    attrs.flatMap Attr.tokens ++ Tokens.word "pub" ++ Tokens.word "enum" ++ Tokens.word name.text ++
      Tokens.braces (Tokens.commaEnded (variants.map Variant.tokens))
  | .trait attrs name members =>
    attrs.flatMap Attr.tokens ++ Tokens.word "pub" ++ Tokens.word "trait" ++
      Tokens.word name.text ++ Tokens.braces (members.flatMap TraitMember.tokens)
  | .impl lifetimes ofTrait self members =>
    Tokens.word "impl" ++ Tokens.angles (lifetimes.map Tokens.lifetime) ++
      (match ofTrait with
       | some t => t.tokens ++ Tokens.word "for"
       | none => []) ++
      self.tokens ++ Tokens.braces (members.flatMap ImplMember.tokens)

/-- The tokens of the items. -/
def tokensOfAll : List Item → Tokens
  | [] => []
  | i :: is => tokens i ++ tokensOfAll is

end

mutual

/-- The layout of an item. -/
def doc : Item → Doc
  | .use attrs isPublic p what =>
    Attr.docs attrs ++
      .word (visibility isPublic ++ "use " ++ p.text ++ importText what ++ ";")
  | .module attrs isPublic name =>
    Attr.docs attrs ++
      .together Layout.indentWidth (.word (visibility isPublic ++ "mod " ++ name.text ++ ";"))
  | .inlineModule attrs isPublic name inner items =>
    Attr.docs attrs ++
      let head : Doc := .word (visibility isPublic ++ "mod " ++ name.text ++ " ")
      match docOfAll items with
      | [] => .braced head []
      | first :: rest => .braced head ((Attr.innerDocs inner ++ first) :: rest)
  | .struct attrs isPublic name fields =>
    Attr.docs attrs ++
      let head := visibility isPublic ++ "struct " ++ name.text
      match fields with
      | .unit => .together Layout.indentWidth (.word (head ++ ";"))
      | .single t =>
        .together Layout.indentWidth
          (.word (head ++ "(") ++ .zero ++ .listed Doc.closing [.word "pub " ++ t.doc] ++
            .word ")" ++ .word ";")
      | .named fs => .braced (.word (head ++ " ")) (fs.map RecordField.doc)
  | .enum attrs name variants =>
    Attr.docs attrs ++
      .braced (.word ("pub enum " ++ name.text ++ " ")) (variants.map Variant.doc)
  | .trait attrs name members =>
    Attr.docs attrs ++
      .braced (.word ("pub trait " ++ name.text ++ " ")) (members.map TraitMember.doc)
  | .impl lifetimes ofTrait self members =>
    let generics := .angled 0 (lifetimes.map fun l => .word ("'" ++ l))
    let ofTrait : Doc :=
      match ofTrait with
      | some t => t.doc ++ .space ++ .word "for "
      | none => .nil
    .braced
      (.filled (-Layout.indentWidth)
          (.together Layout.indentWidth (.word "impl" ++ generics) ++ .word " " ++ ofTrait ++
            self.doc) ++
        .word " ")
      (members.map ImplMember.doc)

/-- The layout of each item. -/
def docOfAll : List Item → List Doc
  | [] => []
  | i :: is => doc i :: docOfAll is

end

end Item

/-- A source file: its own attributes and its items. -/
structure File where
  inner : List Attr
  items : List Item
deriving Repr

namespace File

/-- The tokens of a file. -/
def tokens (f : File) : Tokens :=
  f.inner.flatMap Attr.innerTokens ++ Item.tokensOfAll f.items

/-- The layout of a file: one item after the other, each with a line end. -/
def doc (f : File) : Doc :=
  .together 0 (Attr.innerDocs f.inner ++
    .concat ((Item.docOfAll f.items).map (· ++ .hard)))

end File

end WireContract.Rust
