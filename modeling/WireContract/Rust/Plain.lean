import WireContract.Rust.Source
import WireContract.Rust.Tree
import WireContract.Rust.Type

/-!
# Plain files

A plain file has imports, declarations of modules and structures without fields, each with its
attributes and visibility.  Unlike a generated file it may use every form that Rust has for those:
attributes with any content, nested imports, parameters of structures.  `File.source?` writes it in
the layout of generated files.
-/

namespace WireContract.Rust.Plain

open Layout (Doc)

/-! ## Attributes -/

/-- What an attribute says after its path. -/
inductive Content where
  | nothing
  | group (b : Bracket) (inner : List Tree)
  /-- A value, as it is written. -/
  | value (written : String)
deriving Repr

/-- An attribute. -/
structure Attr where
  path : Path
  content : Content
deriving Repr

/-- What was written last among the trees of an attribute. -/
inductive Last where
  | word
  | mark
  /-- A comma that ends its group. -/
  | finalComma
deriving DecidableEq, Repr

/-- The break before a closing parenthesis. -/
def outdent (before : Option Char) : Doc :=
  .brk { offset := -Layout.indentWidth, before := before } .nil

mutual

/-- The layout of a tree of an attribute after what was written last.  `isFinal` says that it ends
its group, and `inParens` that the group has parentheses. -/
def treeDoc (inParens isFinal : Bool) (last : Last) : Tree → Doc × Last
  | .word s => (if last == .word then .space ++ .word s else .word s, .word)
  | .literal s => (if last == .word then .space ++ .word s else .word s, .word)
  | .mark c _ =>
    let gap : Doc := if last == .word && c == '=' then .word " " else .nil
    if c == ',' && isFinal then
      let close : Doc := if inParens then outdent (some ',') else .brk { before := some ',' } .nil
      (gap ++ close, .finalComma)
    else
      let next : Doc := if c == '=' then .word " " else if c == ',' then .space else .nil
      (gap ++ .word (String.singleton c) ++ next, .mark)
  | .group .round inner =>
    let (body, last) := treesDoc true .mark inner
    let close : Doc := if last == .finalComma then .nil else outdent none
    (.word "(" ++ .together Layout.indentWidth (.zero ++ body ++ close) ++ .word ")", .mark)
  | .group .square inner => (.word "[" ++ (treesDoc false .mark inner).1 ++ .word "]", .mark)
  | .group .curly inner => (.word "\x7b" ++ (treesDoc false .mark inner).1 ++ .word "\x7d", .mark)

/-- The layout of the trees of a group, and what was written last. -/
def treesDoc (inParens : Bool) (last : Last) : List Tree → Doc × Last
  | [] => (.nil, last)
  | t :: ts =>
    let (first, last) := treeDoc inParens ts.isEmpty last t
    let (rest, last) := treesDoc inParens last ts
    (first ++ rest, last)

end

/-- Whether comments open and close in turn in a text, `depth` of them being open before it. -/
def closesComments : (depth : Nat) → List Char → Bool
  | depth, '/' :: '*' :: cs => closesComments (depth + 1) cs
  | 0, '*' :: '/' :: _ => false
  | depth + 1, '*' :: '/' :: cs => closesComments depth cs
  | depth, _ :: cs => closesComments depth cs
  | depth, [] => depth == 0

/-- Whether a text can stand inside a comment with two ends. -/
def fitsComment (cs : List Char) : Bool :=
  closesComments 0 cs && cs.getLast? != some '/'

/-- The line without the blanks at its end. -/
def unpadded (line : List Char) : List Char :=
  (line.reverse.dropWhile (· == ' ')).reverse

/-- The text with no blanks before a line feed. -/
def unpaddedInside (cs : List Char) : List Char :=
  let lines := Text.splitOn '\n' cs
  List.intercalate ['\n'] (lines.dropLast.map unpadded ++ lines.drop (lines.length - 1))

/-- How a comment is marked. -/
structure CommentStyle where
  /-- The start of a comment of one line. -/
  line : String
  /-- The start of a comment with two ends. -/
  block : String
  /-- The characters that cannot follow the first of these. -/
  notInLine : List Char
  /-- The characters that cannot follow the second. -/
  notInBlock : List Char

/-- A comment, in a style, if its text allows it. -/
def CommentStyle.doc? (style : CommentStyle) (text : String) : Option Doc :=
  let cs := text.toList
  if !cs.contains '\n' && !cs.head?.any style.notInLine.contains then
    some (.word style.line ++ .word (String.ofList (unpadded cs)) ++ .hard)
  else if fitsComment cs && !cs.head?.any style.notInBlock.contains then
    some (.word style.block ++ .word (String.ofList (unpaddedInside cs)) ++ .word "*/" ++ .hard)
  else none

/-- The style of an attribute that is written as a comment. -/
def Attr.commentStyle? (inner : Bool) (a : Attr) : Option CommentStyle :=
  if a.path == .ofWords ["doc"] then
    some (if inner then ⟨"//!", "/*!", [], []⟩ else ⟨"///", "/**", ['/'], ['*', '/']⟩)
  else if a.path == .ofWords ["comment"] then some ⟨"//", "/*", [], ['*', '!']⟩
  else none

/-- The comment that an attribute is written as. -/
def Attr.comment? (inner : Bool) (a : Attr) : Option Doc := do
  let style ← a.commentStyle? inner
  match a.content with
  | .value written => style.doc? (← Literal.stringValue? written)
  | _ => none

/-- The layout of an attribute, and the break after it. -/
def Attr.doc (inner : Bool) (a : Attr) : Doc :=
  match a.comment? inner with
  | some d => d
  | none =>
    let content : Doc :=
      match a.content with
      | .nothing => .nil
      | .group b trees => (treeDoc false true .word (.group b trees)).1
      | .value written => .word (" = " ++ written)
    .word ((if inner then "#![" else "#[") ++ a.path.text) ++ content ++ .word "]" ++ .space

/-! ## Visibilities -/

/-- Who may use an item. -/
inductive Visibility where
  /-- The module around it. -/
  | own
  | everyone
  /-- The module at a path. -/
  | within (path : Path)
deriving DecidableEq, Repr

/-- The text of a visibility. -/
def Visibility.text : Visibility → String
  | .own => ""
  | .everyone => "pub "
  | .within p =>
    let plain := !p.absolute && ["self", "super", "crate"].any fun w => p.segments == [⟨w⟩]
    "pub(" ++ (if plain then "" else "in ") ++ p.text ++ ") "

/-! ## Imports -/

/-- What an import brings in. -/
inductive UseTree where
  | path (head : Ident) (rest : UseTree)
  | item (name : Ident)
  | renamed (name other : Ident)
  /-- Everything. -/
  | all
  | group (trees : List UseTree)
  /-- A path inside a group that starts outside the crate. -/
  | rooted (tree : UseTree)
deriving Repr

namespace UseTree

/-- Whether the import ends in a group. -/
def endsInGroup : UseTree → Bool
  | .path _ rest => endsInGroup rest
  | .group _ => true
  | _ => false

/-- Whether a tree brings in the module around it, so that it needs its group. -/
def isSelf : UseTree → Bool
  | .item name => name.text == "self"
  | .renamed name _ => name.text == "self"
  | _ => false

mutual

/-- The layout of an import. -/
def doc : UseTree → Doc
  | .path head rest => .word (head.text ++ "::") ++ doc rest
  | .item name => .word name.text
  | .renamed name other => .word (name.text ++ " as " ++ other.text)
  | .all => .word "*"
  | .rooted tree => .word "::" ++ doc tree
  | .group trees =>
    let inner := docOfAll trees
    if trees.isEmpty then .word "\x7b\x7d"
    else if trees.length == 1 && !trees.any isSelf then inner
    else
      .together Layout.indentWidth
        (.word "\x7b" ++ .zero ++ .filled 0 inner ++ outdent (some ',') ++ .word "\x7d")

/-- The layout of the trees of a group. -/
def docOfAll : List UseTree → Doc
  | [] => .nil
  | t :: ts =>
    let gap : Doc :=
      if ts.isEmpty then .nil
      else .word "," ++ if t.endsInGroup then .hard else .space
    doc t ++ gap ++ docOfAll ts

end

mutual

/-- Whether no path inside a group starts outside the crate: only then the import can be written. -/
def isWritable : UseTree → Bool
  | .path _ rest => isWritable rest
  | .group trees => areWritable trees
  | .rooted _ => false
  | _ => true

/-- Whether all trees can be written. -/
def areWritable : List UseTree → Bool
  | [] => true
  | t :: ts => isWritable t && areWritable ts

end

end UseTree

/-! ## Parameters of structures -/

/-- A parameter of a structure.  Bounds and defaults are kept as they are written. -/
inductive Param where
  | lifetime (name : String) (bounds : List String)
  | type (name : Ident) (bounds : List String) (default? : Option Path)
  | const (name : Ident) (type : Path) (default? : Option String)
deriving Repr

namespace Param

/-- Whether the parameter is a lifetime. -/
def isLifetime : Param → Bool
  | .lifetime _ _ => true
  | _ => false

/-- The bounds of a type. -/
def boundsDoc (lead : Doc) : List String → Doc
  | [] => .nil
  | b :: bs => lead ++ .word b ++ boundsDoc (.space ++ .word "+ ") bs

/-- The layout of a parameter. -/
def doc : Param → Doc
  | .lifetime name bounds =>
    .word (name ++ if bounds.isEmpty then "" else ": " ++ Text.join " + " bounds)
  | .type name bounds default? =>
    let default : Doc :=
      match default? with
      | some p => .space ++ .word ("= " ++ p.text)
      | none => .nil
    .word name.text ++ .filled Layout.indentWidth (boundsDoc (.word ": ") bounds ++ default)
  | .const name itsType default? =>
    .word ("const " ++ name.text ++ ": " ++ itsType.text ++
      match default? with
      | some written => " = " ++ written
      | none => "")

/-- The parameters in angle brackets, lifetimes first. -/
def docs (params : List Param) : Doc :=
  .angled 0 ((params.filter isLifetime ++ params.filter (!·.isLifetime)).map doc)

end Param

/-! ## Items and files -/

/-- An item. -/
inductive Item where
  | use (attrs : List Attr) (visibility : Visibility) (absolute : Bool) (tree : UseTree)
  | module (attrs : List Attr) (visibility : Visibility) (isUnsafe : Bool) (name : Ident)
  | struct (attrs : List Attr) (visibility : Visibility) (name : Ident) (params : List Param)
deriving Repr

/-- The layout of an item. -/
def Item.doc : Item → Doc
  | .use attrs v absolute tree =>
    .concat (attrs.map (Attr.doc false)) ++
      .word (v.text ++ "use " ++ if absolute then "::" else "") ++ tree.doc ++ .word ";"
  | .module attrs v isUnsafe name =>
    .concat (attrs.map (Attr.doc false)) ++ .together Layout.indentWidth
      (.word (v.text ++ (if isUnsafe then "unsafe " else "") ++ "mod " ++ name.text ++ ";"))
  | .struct attrs v name params =>
    .concat (attrs.map (Attr.doc false)) ++ .together Layout.indentWidth
      (.word (v.text ++ "struct " ++ name.text) ++ Param.docs params ++ .word ";")

/-- Whether an item can be written. -/
def Item.isWritable : Item → Bool
  | .use _ _ _ tree => tree.isWritable
  | _ => true

/-- A file: its own attributes and its items. -/
structure File where
  inner : List Attr
  items : List Item
deriving Repr

namespace File

/-- The layout of a file. -/
def doc (f : File) : Doc :=
  .together 0 (.concat (f.inner.map (Attr.doc true)) ++
    .concat (f.items.map fun i => i.doc ++ .hard))

/-- The text of a file, with some comment lines under the header. -/
def source? (f : File) (comments : List String) : Option String :=
  if f.items.all Item.isWritable then some (withHeader comments f.doc.render) else none

end File

end WireContract.Rust.Plain
