import WireContract.Rust.Type
import WireContract.Text.Quoted

/-!
# Expressions, patterns and function bodies

The expressions that generated functions are made of.  A match and a record with named values occur
only as the value of a whole function, so they are forms of `Tail`, and `Expr` stays a type whose
only nesting is in argument lists.
-/

namespace WireContract.Rust

open Layout (Doc)

/-- A pattern. -/
inductive Pat where
  | wild
  | bind (name : Ident)
  /-- A string literal. -/
  | literal (s : String)
  | path (p : Path)
  /-- A constructor with patterns for its values. -/
  | make (p : Path) (args : List Pat)
  | tuple (args : List Pat)
deriving Repr

namespace Pat

mutual

/-- The tokens of a pattern. -/
def tokens : Pat → Tokens
  | .wild => Tokens.word "_"
  | .bind i => Tokens.word i.text
  | .literal s => [.literal s]
  | .path p => p.tokens
  | .make p args => p.tokens ++ Tokens.parens (Tokens.commas (tokensOfAll args))
  | .tuple args => Tokens.parens (Tokens.commas (tokensOfAll args))

/-- The tokens of each pattern. -/
def tokensOfAll : List Pat → List Tokens
  | [] => []
  | p :: ps => tokens p :: tokensOfAll ps

end

mutual

/-- The layout of a pattern. -/
def doc : Pat → Doc
  | .wild => .word "_"
  | .bind i => .word i.text
  | .literal s => .word (Text.quoted s)
  | .path p => .word p.text
  | .make p args =>
    .word p.text ++ .word "(" ++ .elements Layout.indentWidth (docOfAll args) ++ .word ")"
  | .tuple args => .word "(" ++ .elements Layout.indentWidth (docOfAll args) ++ .word ")"

/-- The layout of each pattern. -/
def docOfAll : List Pat → List Doc
  | [] => []
  | p :: ps => doc p :: docOfAll ps

end

mutual

/-- A pattern on one line. -/
def text : Pat → String
  | .wild => "_"
  | .bind i => i.text
  | .literal s => Text.quoted s
  | .path p => p.text
  | .make p args => p.text ++ "(" ++ Text.join ", " (textOfAll args) ++ ")"
  | .tuple args => "(" ++ Text.join ", " (textOfAll args) ++ ")"

/-- Each pattern on one line. -/
def textOfAll : List Pat → List String
  | [] => []
  | p :: ps => text p :: textOfAll ps

end

end Pat

/-- An expression. -/
inductive Expr where
  | path (p : Path)
  /-- A function of a trait, for a type: `<T as Trait>::f`. -/
  | qualified (self : Ty) (ofTrait : Path) (name : Ident)
  /-- An array of string literals. -/
  | literals (items : List String)
  | literal (s : String)
  | reference (mutable : Bool) (e : Expr)
  /-- A field by name or position. -/
  | field (e : Expr) (name : String)
  | call (f : Expr) (args : List Expr)
  | method (receiver : Expr) (name : String) (args : List Expr)
  /-- The value, or an early return with its error. -/
  | orReturn (e : Expr)
  /-- A record whose fields take the variables of the same names. -/
  | record (p : Path) (fields : List Ident) (comma : Bool)
  | closure (param : Pat) (body : Expr)
  /-- A vector of the values at the paths. -/
  | vec (items : List Path)
  /-- Whether a variable has the form of a pattern. -/
  | test (subject : Ident) (pattern : Pat)
deriving Repr

namespace Expr

/-- A variable. -/
def var (name : String) : Expr := .path (.ofWords [name])

/-- The tokens of a macro call. -/
private def invoke (name : String) (args : Tokens) : Tokens :=
  Tokens.word name ++ Tokens.marks "!" ++ args

mutual

/-- The tokens of an expression. -/
def tokens : Expr → Tokens
  | .path p => p.tokens
  | .qualified t p i =>
    Tokens.marks "<" ++ t.tokens ++ Tokens.word "as" ++ p.tokens ++ Tokens.marks ">::" ++
      Tokens.word i.text
  | .literals items => Tokens.brackets (Tokens.commas (items.map fun s => [.literal s]))
  | .literal s => [.literal s]
  | .reference mutable e =>
    Tokens.marks "&" ++ (if mutable then Tokens.word "mut" else []) ++ tokens e
  | .field e name => tokens e ++ Tokens.marks "." ++ Tokens.word name
  | .call f args => tokens f ++ Tokens.parens (Tokens.commas (tokensOfAll args))
  | .method e name args =>
    tokens e ++ Tokens.marks "." ++ Tokens.word name ++
      Tokens.parens (Tokens.commas (tokensOfAll args))
  | .orReturn e => tokens e ++ Tokens.marks "?"
  | .record p fields comma =>
    let fields := fields.map fun i => Tokens.word i.text
    p.tokens ++ Tokens.braces (if comma then Tokens.commaEnded fields else Tokens.commas fields)
  | .closure param body =>
    Tokens.marks "|" ++ param.tokens ++ Tokens.marks "|" ++ tokens body
  | .vec items => invoke "vec" (Tokens.brackets (Tokens.commas (items.map Path.tokens)))
  | .test subject pattern =>
    invoke "matches" (Tokens.parens (Tokens.commas [Tokens.word subject.text, pattern.tokens]))

/-- The tokens of each expression. -/
def tokensOfAll : List Expr → List Tokens
  | [] => []
  | e :: es => tokens e :: tokensOfAll es

end

/-! ## Layout -/

/-- Where an expression stands: on its own or as the head of a chain of fields and methods, and
whether a line starts with it. -/
inductive Role where
  | whole (startsLine : Bool)
  | head (startsLine : Bool)

/-- Whether a line starts with the expression. -/
def Role.startsLine : Role → Bool
  | .whole b => b
  | .head b => b

/-- An expression that is not part of a chain is, as the head of one, moved back by a level. -/
def Role.leaf (r : Role) (d : Doc) : Doc :=
  match r with
  | .whole _ => d
  | .head _ => .together (-Layout.indentWidth) d

/-- A chain of fields and methods is indented as a whole. -/
def Role.link (r : Role) (d : Doc) : Doc :=
  match r with
  | .whole _ => .together Layout.indentWidth d
  | .head _ => d

/-- Whether the expression is a variable no longer than a level of indentation. -/
def isShort : Expr → Bool
  | .path ⟨false, [i], []⟩ => i.text.utf8ByteSize ≤ 4
  | _ => false

/-- Whether the expression brings its own brackets, so that it may stand alone between
parentheses. -/
def isBracketed : Expr → Bool
  | .record .. => true
  | .closure .. => true
  | .literals _ => true
  | _ => false

/-- Whether the expression is the last link of a chain. -/
def isLink : Expr → Bool
  | .field .. => true
  | .method .. => true
  | _ => false

/-- The break before the dot of a link; none after a short variable that starts the line. -/
def beforeDot (r : Role) (receiver : Expr) : Doc :=
  if r.startsLine && receiver.isShort then .nil else .zero

/-- The arguments of a call, by their layouts. -/
def arguments (args : List Expr) (docs : List Doc) : Doc :=
  match args, docs with
  | [a], [d] => if a.isBracketed then d else .elements Layout.indentWidth [d]
  | _, docs => .elements Layout.indentWidth docs

/-- The indentation of a method's arguments: back a level if the receiver is a short variable that
starts the line and the call is not part of a longer chain. -/
def argumentOffset (r : Role) (receiver : Expr) : Int :=
  match r with
  | .whole true => if receiver.isShort then -Layout.indentWidth else 0
  | _ => 0

/-- The widest record that is written on one line. -/
def recordWidth : Nat := 34

/-- A record, by the layouts of its fields. -/
def recordDoc (p : Path) (fields : List Doc) : Doc :=
  let head : Doc := .filled (-Layout.indentWidth) (.word p.text) ++ .word " \x7b"
  let opening : Doc := .brk { blank := 1, offset := -Layout.indentWidth } .nil
  let closing : Layout.Break :=
    { blank := 1, offset := -Layout.indentWidth, before := some ',' }
  let body : Doc :=
    match fields with
    | [] => if (head ++ opening).width > recordWidth then head ++ opening ++ .force .nil else head
    | _ =>
      let full := head ++ .space ++ .listed closing fields
      if full.width > recordWidth then full ++ .force .nil else full
  .together Layout.indentWidth body ++ .word "\x7d"

/-- The call of a macro: its arguments fill the lines. -/
def invocationDoc (opening : String) (args : List Doc) (close : String) : Doc :=
  match args with
  | [] => .word opening ++ .word close
  | _ =>
    .word opening ++
      .together Layout.indentWidth (.zero ++ .filled 0 (.separated args) ++
        .brk { offset := -Layout.indentWidth } .nil) ++
      .word close

mutual

/-- The layout of an expression in a role. -/
def layout : Expr → Role → Doc
  | .path p, r => r.leaf p.valueDoc
  | .qualified t p i, r =>
    r.leaf (.word "<" ++ t.doc ++ .word " as " ++ .word p.text ++ .word (">::" ++ i.text))
  | .literals items, r =>
    r.leaf (.word "[" ++
      .elements Layout.indentWidth (items.map fun s => .word (Text.quoted s)) ++ .word "]")
  | .literal s, r => r.leaf (.word (Text.quoted s))
  | .reference mutable e, r =>
    r.leaf (.word (if mutable then "&mut " else "&") ++ layout e (.whole false))
  | .field e name, r =>
    r.link (layout e (.head r.startsLine) ++ beforeDot r e ++ .word "." ++ .word name)
  | .call f args, r =>
    let f :=
      match r with
      | .whole b => layout f (.whole b)
      | .head _ => layout f (.head false)
    f ++ .word "(" ++ arguments args (layoutAll args) ++ .word ")"
  | .method e name args, r =>
    r.link (layout e (.head r.startsLine) ++ beforeDot r e ++ .word "." ++ .word name ++
      .together (argumentOffset r e)
        (.word "(" ++ arguments args (layoutAll args) ++ .word ")"))
  | .orReturn e, r =>
    (match r with
     | .whole b => layout e (.whole b)
     | .head b => layout e (.head b)) ++ .word "?"
  | .record p fields _, r => r.leaf (recordDoc p (fields.map fun i => .word i.text))
  | .closure param body, r =>
    r.leaf (.filled 0
      (.together Layout.indentWidth
          (.word "|" ++ .zero ++ param.doc ++ .word "|" ++
            .brk { blank := 1, offset := -Layout.indentWidth } .nil) ++
        .fixed ++
        .together Layout.indentWidth
          (.brk { before := some '\x7b' } .nil ++ layout body (.whole false) ++
            .brk { offset := -Layout.indentWidth, after := "\x7d" } .nil)))
  | .vec items, r => r.leaf (invocationDoc "vec![" (items.map fun p => .word p.text) "]")
  | .test subject pattern, r =>
    r.leaf (invocationDoc "matches!(" [.word subject.text, .word pattern.text] ")")

/-- The layout of each expression. -/
def layoutAll : List Expr → List Doc
  | [] => []
  | e :: es => layout e (.whole false) :: layoutAll es

end

/-- The layout of an expression. -/
def doc (e : Expr) : Doc := e.layout (.whole false)

/-- Whether the expression is the call of a macro. -/
def isInvocation : Expr → Bool
  | .vec _ => true
  | .test .. => true
  | _ => false

end Expr

/-- A case of a match. -/
structure Arm where
  pattern : Pat
  body : Expr
deriving Repr

namespace Arm

/-- The tokens of a case, with the comma after it. -/
def tokens (a : Arm) : Tokens :=
  a.pattern.tokens ++ Tokens.marks "=>" ++ a.body.tokens ++ Tokens.marks ","

/-- The layout of a case.  A body that does not fit beside its pattern goes between braces. -/
def doc (a : Arm) : Doc :=
  .filled 0 (a.pattern.doc ++ .word " => " ++ .fixed ++
    .together Layout.indentWidth
      (.brk { before := some '\x7b' } .nil ++ a.body.layout (.whole true) ++
        .brk { offset := -Layout.indentWidth, after := "\x7d", flat := some ',' } .nil))

end Arm

/-- The value of a function. -/
inductive Tail where
  | expr (e : Expr)
  /-- The body of the first case whose pattern the subject has. -/
  | choose (subject : Expr) (arms : List Arm)
  /-- A record with a value for each field. -/
  | make (p : Path) (fields : List (Ident × Expr))
deriving Repr

namespace Tail

/-- The tokens of a function's value. -/
def tokens : Tail → Tokens
  | .expr e => e.tokens
  | .choose subject arms =>
    Tokens.word "match" ++ subject.tokens ++ Tokens.braces (arms.flatMap Arm.tokens)
  | .make p fields =>
    p.tokens ++ Tokens.braces (Tokens.commaEnded (fields.map fun (i, e) =>
      Tokens.word i.text ++ Tokens.marks ":" ++ e.tokens))

/-- The layout of a match. -/
def chooseDoc (subject : Expr) (arms : List Arm) : Doc :=
  let lines : Doc :=
    match arms with
    | [] => .nil
    | _ => .hard ++ .block (arms.map Arm.doc)
  .filled 0 (.word "match " ++
    .together 0 (subject.doc ++ if subject.isLink then .space else .word " ") ++
    .word "\x7b" ++ .fixed ++ .together Layout.indentWidth lines ++ .word "\x7d")

/-- The layout of a function's value. -/
def doc : Tail → Doc
  | .expr e => if e.isInvocation then e.doc else .filled 0 (e.layout (.whole true))
  | .choose subject arms => .filled 0 (chooseDoc subject arms)
  | .make p fields =>
    .filled 0 (Expr.recordDoc p (fields.map fun (i, e) =>
      .word (i.text ++ ": ") ++ .filled 0 e.doc))

end Tail

/-- The body of a function: variables and a value. -/
structure Body where
  lets : List (Ident × Expr)
  tail : Tail
deriving Repr

namespace Body

/-- A body that is an expression. -/
def ofExpr (e : Expr) : Body := ⟨[], .expr e⟩

/-- The tokens of a body. -/
def tokens (b : Body) : Tokens :=
  (b.lets.flatMap fun (i, e) =>
    Tokens.word "let" ++ Tokens.word i.text ++ Tokens.marks "=" ++ e.tokens ++ Tokens.marks ";") ++
    b.tail.tokens

/-- The layout of each statement. -/
def lines (b : Body) : List Doc :=
  (b.lets.map fun (i, e) =>
    .filled 0 (.word ("let " ++ i.text ++ " = ") ++ .fixed ++ e.doc) ++ .word ";") ++
    [b.tail.doc]

end Body

end WireContract.Rust
