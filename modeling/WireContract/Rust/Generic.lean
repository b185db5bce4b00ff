import WireContract.Layout.Basic
import WireContract.Rust.Ident
import WireContract.Rust.Token

/-!
# Generic arguments

The arguments that a segment of a path may have in angle brackets: lifetimes, literals, types, and
types for associated names.  Types are those that need no expression and no trait: paths with
arguments of their own, references, pointers, slices, arrays of literal length and tuples.

Where a value is expected, arguments count only after a double colon (`a::<b>::c`).  Without it the
brackets are read as comparisons, which `GenericArg.isOperand` prepares: it says whether what stands
in them is an operand as well.
-/

namespace WireContract.Rust

open Layout (Doc)

mutual

/-- A type as an argument. -/
inductive ArgType where
  /-- The type that is left to be found, `_`. -/
  | infer
  /-- The type without values, `!`. -/
  | never
  | path (absolute : Bool) (segments : ArgPath)
  | reference (lifetime : Option String) (mutable : Bool) (target : ArgType)
  | pointer (mutable : Bool) (target : ArgType)
  | slice (item : ArgType)
  /-- As many items as a literal says. -/
  | array (item : ArgType) (length : String)
  /-- Types in parentheses; `comma` says that a comma ends them.  One type without a comma is that
  type. -/
  | tuple (items : ArgTypes) (comma : Bool)
deriving DecidableEq, Repr

/-- Types in a row. -/
inductive ArgTypes where
  | nil
  | cons (t : ArgType) (ts : ArgTypes)
deriving DecidableEq, Repr

/-- The segments of a path, each with its arguments. -/
inductive ArgPath where
  | nil
  | cons (name : Ident) (generics : Generics) (rest : ArgPath)
deriving DecidableEq, Repr

/-- An argument. -/
inductive GenericArg where
  | lifetime (name : String)
  /-- A literal as it is written. -/
  | literal (written : String)
  | type (t : ArgType)
  /-- A type for an associated name. -/
  | binding (name : Ident) (t : ArgType)
deriving DecidableEq, Repr

/-- Arguments in a row. -/
inductive GenericArgs where
  | nil
  | cons (a : GenericArg) (as : GenericArgs)
deriving DecidableEq, Repr

/-- The arguments of a segment. -/
inductive Generics where
  | none
  /-- Arguments in angle brackets; `colons` says that a double colon stands before them, and `comma`
  that a comma ends them. -/
  | angles (colons : Bool) (args : GenericArgs) (comma : Bool)
deriving DecidableEq, Repr

end

/-- The arguments as a list. -/
def GenericArgs.toList : GenericArgs → List GenericArg
  | .nil => []
  | .cons a as => a :: as.toList

/-- The row of a list of arguments. -/
def GenericArgs.ofList (args : List GenericArg) : GenericArgs := args.foldr .cons .nil

/-- Whether an argument is a lifetime. -/
def GenericArg.isLifetime : GenericArg → Bool
  | .lifetime _ => true
  | _ => false

/-- The names of the segments. -/
def ArgPath.names : ArgPath → List Ident
  | .nil => []
  | .cons name _ rest => name :: rest.names

/-- The arguments of each segment. -/
def ArgPath.generics : ArgPath → List Generics
  | .nil => []
  | .cons _ generics rest => generics :: rest.generics

/-! ## Tokens -/

mutual

/-- The tokens of a type. -/
def ArgType.tokens : ArgType → Tokens
  | .infer => Tokens.word "_"
  | .never => Tokens.marks "!"
  | .path absolute segments => (if absolute then Tokens.marks "::" else []) ++ segments.tokens
  | .reference lifetime mutable t =>
    Tokens.marks "&" ++ (lifetime.map Tokens.lifetime).getD [] ++
      (if mutable then Tokens.word "mut" else []) ++ t.tokens
  | .pointer mutable t =>
    Tokens.marks "*" ++ Tokens.word (if mutable then "mut" else "const") ++ t.tokens
  | .slice t => Tokens.brackets t.tokens
  | .array t length => Tokens.brackets (t.tokens ++ Tokens.marks ";" ++ [.constant length])
  | .tuple ts comma =>
    Tokens.parens (Tokens.commas ts.tokens ++ if comma then Tokens.marks "," else [])

/-- The tokens of each type. -/
def ArgTypes.tokens : ArgTypes → List Tokens
  | .nil => []
  | .cons t ts => t.tokens :: ts.tokens

/-- The tokens of segments, with `::` between them. -/
def ArgPath.tokens : ArgPath → Tokens
  | .nil => []
  | .cons name generics .nil => Tokens.word name.text ++ generics.tokens
  | .cons name generics rest =>
    Tokens.word name.text ++ generics.tokens ++ Tokens.marks "::" ++ rest.tokens

/-- The tokens of an argument. -/
def GenericArg.tokens : GenericArg → Tokens
  | .lifetime l => Tokens.lifetime l
  | .literal written => [.constant written]
  | .type t => t.tokens
  | .binding name t => Tokens.word name.text ++ Tokens.marks "=" ++ t.tokens

/-- The tokens of each argument. -/
def GenericArgs.tokens : GenericArgs → List Tokens
  | .nil => []
  | .cons a as => a.tokens :: as.tokens

/-- The tokens of the arguments of a segment. -/
def Generics.tokens : Generics → Tokens
  | .none => []
  | .angles colons args comma =>
    (if colons then Tokens.marks "::" else []) ++ Tokens.marks "<" ++ Tokens.commas args.tokens ++
      (if comma then Tokens.marks "," else []) ++ Tokens.marks ">"

end

/-- The arguments as they are written, without blanks. -/
def Generics.text (g : Generics) : String :=
  String.ofList ((Text.join "" (g.tokens.map Token.text)).toList.filter (· != ' '))

/-! ## Layout -/

mutual

/-- The layout of a type. -/
def ArgType.doc : ArgType → Doc
  | .infer => .word "_"
  | .never => .word "!"
  | .path absolute segments => (if absolute then .word "::" else .nil) ++ segments.doc
  | .reference lifetime mutable t =>
    let lifetime := (lifetime.map fun l => "'" ++ l ++ " ").getD ""
    .word ("&" ++ lifetime ++ if mutable then "mut " else "") ++ t.doc
  | .pointer mutable t => .word (if mutable then "*mut " else "*const ") ++ t.doc
  | .slice t => .word "[" ++ t.doc ++ .word "]"
  | .array t length => .word "[" ++ t.doc ++ .word ("; " ++ length ++ "]")
  | .tuple ts comma =>
    match ts.docs, comma with
    | [d], false => .word "(" ++ d ++ .word ")"
    | [d], true =>
      .word "(" ++ .together Layout.indentWidth (.zero ++ d ++ .word "," ++
        .brk { offset := -Layout.indentWidth } .nil) ++ .word ")"
    | ds, _ => .word "(" ++ .elements Layout.indentWidth ds ++ .word ")"

/-- The layout of each type. -/
def ArgTypes.docs : ArgTypes → List Doc
  | .nil => []
  | .cons t ts => t.doc :: ts.docs

/-- The layout of segments. -/
def ArgPath.doc : ArgPath → Doc
  | .nil => .nil
  | .cons name generics .nil => .word name.text ++ generics.doc
  | .cons name generics rest => .word name.text ++ generics.doc ++ .word "::" ++ rest.doc

/-- The layout of an argument. -/
def GenericArg.doc : GenericArg → Doc
  | .lifetime l => .word ("'" ++ l)
  | .literal written => .word written
  | .type t => t.doc
  | .binding name t => .word (name.text ++ " = ") ++ t.doc

/-- The layout of each argument. -/
def GenericArgs.docs : GenericArgs → List Doc
  | .nil => []
  | .cons a as => a.doc :: as.docs

/-- The layout of the arguments of a segment in a type, where no double colon is needed. -/
def Generics.doc : Generics → Doc
  | .none => .nil
  | .angles _ args _ => .angled Layout.indentWidth args.docs

end

/-- The layout of the arguments of a segment where a value is expected.  Without a double colon the
brackets are signs of comparison. -/
def Generics.valueDoc : Generics → Doc
  | .none => .nil
  | .angles _ .nil _ => .nil
  | .angles true args _ => .word "::" ++ .angled Layout.indentWidth args.docs
  | .angles false args _ => .word " < " ++ .separated args.docs ++ .word " > "

/-! ## Arguments as operands -/

/-- Whether the arguments are read as such where a value is expected. -/
def Generics.isClosed : Generics → Bool
  | .none => true
  | .angles colons _ _ => colons

/-- Whether all arguments of a path are read as such where a value is expected. -/
def ArgPath.isClosed : ArgPath → Bool
  | .nil => true
  | .cons _ generics rest => generics.isClosed && rest.isClosed

mutual

/-- Whether a type is also the text of an operand. -/
def ArgType.isOperand : ArgType → Bool
  | .infer => true
  | .never => false
  | .path _ segments => segments.isClosed
  | .reference lifetime _ t => lifetime.isNone && t.isOperand
  | .pointer .. => false
  | .slice t => t.isOperand
  | .array t _ => t.isOperand
  | .tuple ts _ => ts.areOperands

/-- Whether all types are. -/
def ArgTypes.areOperands : ArgTypes → Bool
  | .nil => true
  | .cons t ts => t.isOperand && ts.areOperands

end

/-- Whether an argument is also the text of an operand, or of an assignment of one. -/
def GenericArg.isOperand : GenericArg → Bool
  | .lifetime _ => false
  | .literal _ => true
  | .type t => t.isOperand
  | .binding _ t => t.isOperand

/-- Whether the brackets of arguments can be read as a comparison on each side of an assignment:
`a<b = c>::d` is `(a < b) = (c > ::d)`. -/
def Generics.isAssignment : Generics → Bool
  | .angles false (.cons (.binding _ t) .nil) false => t.isOperand
  | _ => false

/-- Whether the brackets of arguments can be read as comparisons with a comma between them, in a
list of values: `a<b, c>::d` is `a < b` and `c > ::d`. -/
def Generics.isList : Generics → Bool
  | .angles false (.cons a (.cons b args)) false =>
    a.isOperand && b.isOperand && args.toList.all GenericArg.isOperand
  | _ => false

end WireContract.Rust
