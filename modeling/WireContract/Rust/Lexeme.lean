import WireContract.Rust.Ident
import WireContract.Rust.Literal
import WireContract.Text.Blank

/-!
# Lexemes of Rust source

`Lexeme.scan` cuts a source text into words, marks, literals and brackets.  Blanks and comments
separate lexemes and are dropped; a documentation comment reads as the attribute it stands for.
-/

namespace WireContract.Rust

/-- The shapes of brackets. -/
inductive Bracket where
  | round
  | square
  | curly
deriving DecidableEq, Repr

/-- The bracket that a character opens. -/
def Bracket.ofOpening? (c : Char) : Option Bracket :=
  if c == '(' then some .round
  else if c == '[' then some .square
  else if c == '\x7b' then some .curly
  else none

/-- The bracket that a character closes. -/
def Bracket.ofClosing? (c : Char) : Option Bracket :=
  if c == ')' then some .round
  else if c == ']' then some .square
  else if c == '\x7d' then some .curly
  else none

/-- A piece of source text. -/
inductive Lexeme where
  /-- An identifier or keyword. -/
  | word (s : String)
  /-- A punctuation character; `joint` says whether another follows without a blank. -/
  | mark (c : Char) (joint : Bool)
  /-- A literal as it is written. -/
  | literal (written : String)
  | opening (b : Bracket)
  | closing (b : Bracket)
deriving DecidableEq, Repr

namespace Lexeme

/-! ## Blanks and comments -/

/-- The characters between lexemes. -/
def isGap (c : Char) : Bool := Text.isBlank c || c.toNat == 0x200E || c.toNat == 0x200F

/-- The rest of a line and what follows it. -/
def lineEnd : List Char → List Char × List Char
  | [] => ([], [])
  | '\n' :: cs => ([], '\n' :: cs)
  | '\r' :: '\n' :: cs => ([], '\n' :: cs)
  | c :: cs =>
    let (line, rest) := lineEnd cs
    (c :: line, rest)

/-- The rest of a comment that nests, `depth` levels of which are open besides its own, and what
follows its closing mark. -/
def commentEnd : (depth : Nat) → List Char → Option (List Char × List Char)
  | 0, '*' :: '/' :: cs => some ([], cs)
  | depth + 1, '*' :: '/' :: cs => (commentEnd depth cs).map fun (text, rest) =>
    ('*' :: '/' :: text, rest)
  | depth, '/' :: '*' :: cs => (commentEnd (depth + 1) cs).map fun (text, rest) =>
    ('/' :: '*' :: text, rest)
  | depth, c :: cs => (commentEnd depth cs).map fun (text, rest) => (c :: text, rest)
  | _, [] => none

/-- A comment. -/
structure Comment where
  /-- For a comment that documents something: whether that is what stands around it. -/
  inner? : Option Bool
  /-- The documentation. -/
  text : List Char

/-- Whether a comment documents something, by what stands after its first two characters: a third
slash or second star documents the next item, unless one more follows or the comment ends there, and
an exclamation mark documents what stands around the comment. -/
def documents? (mark : Char) : List Char → Option Bool
  | '!' :: _ => some true
  | a :: b :: _ => if a == mark && b != mark && !(mark == '*' && b == '/') then some false else none
  | [a] => if a == mark then some false else none
  | [] => none

/-- The comment at the front and what follows it. -/
def comment? : List Char → Option (Comment × List Char)
  | '/' :: '/' :: cs =>
    let (text, rest) := lineEnd cs
    some (⟨documents? '/' cs, text.drop 1⟩, rest)
  | '/' :: '*' :: cs =>
    (commentEnd 0 cs).map fun (text, rest) => (⟨documents? '*' cs, text.drop 1⟩, rest)
  | _ => none

/-- Whether each carriage return is followed by a line feed. -/
def hasPairedReturns : List Char → Bool
  | [] => true
  | '\r' :: '\n' :: cs => hasPairedReturns cs
  | '\r' :: _ => false
  | _ :: cs => hasPairedReturns cs

/-- The attribute that a documentation comment stands for. -/
def docAttr (inner : Bool) (text : List Char) : List Lexeme :=
  .mark '#' false :: (if inner then [.mark '!' false] else []) ++
    [.opening .square, .word "doc", .mark '=' false,
      .literal (Literal.ofString (String.ofList text)), .closing .square]

/-! ## Words and marks -/

/-- The texts that start a literal and never a word. -/
def literalStarts : List String :=
  ["r\"", "r#\"", "r##", "b\"", "b'", "br\"", "br#", "c\"", "cr\"", "cr#"]

/-- A word, raw or not, and what follows it. -/
def word? (cs : List Char) : Option (String × List Char) :=
  let (start, name) :=
    match cs with
    | 'r' :: '#' :: name => (['r', '#'], name)
    | name => ([], name)
  match name with
  | c :: rest =>
    let spelled := String.ofList (start ++ c :: rest.takeWhile Text.isIdentContinue)
    if Text.isIdentStart c && isSpelling spelled then
      some (spelled, rest.dropWhile Text.isIdentContinue)
    else none
  | [] => none

/-- Whether a punctuation character stands at the front. -/
def startsMark : List Char → Bool
  | '/' :: '/' :: _ => false
  | '/' :: '*' :: _ => false
  | c :: _ => "~!@#$%^&*-=+|;:,<.>/?'".toList.contains c
  | [] => false

/-- Whether the name of a lifetime, without a quote after it, stands at the front. -/
def startsLifetime (cs : List Char) : Bool :=
  match word? cs with
  | some (name, rest) =>
    rest.head? != some '\'' && !(rest.head? == some '#' && name.toList.take 2 != ['r', '#'])
  | none => false

/-- The lexeme at the front, no bracket among them, and what follows it. -/
def leaf? (cs : List Char) : Option (Lexeme × List Char) :=
  match Literal.afterLiteral? cs with
  | some rest => some (.literal (String.ofList (cs.take (cs.length - rest.length))), rest)
  | none =>
    if startsMark cs then
      match cs with
      | '\'' :: rest => if startsLifetime rest then some (.mark '\'' true, rest) else none
      | c :: rest => some (.mark c (startsMark rest), rest)
      | [] => none
    else if literalStarts.any fun start => start.toList.isPrefixOf cs then none
    else (word? cs).map fun (s, rest) => (.word s, rest)

/-! ## Scanning -/

/-- The lexemes of a text, within `fuel` steps; none if some part of it is no lexeme. -/
def scanWithin : (fuel : Nat) → List Char → Option (List Lexeme)
  | 0, _ => none
  | _, [] => some []
  | fuel + 1, c :: cs =>
    if isGap c then scanWithin fuel cs
    else
      match comment? (c :: cs) with
      | some (⟨none, _⟩, rest) => scanWithin fuel rest
      | some (⟨some inner, text⟩, rest) =>
        if hasPairedReturns text then (scanWithin fuel rest).map (docAttr inner text ++ ·) else none
      | none =>
        match Bracket.ofOpening? c, Bracket.ofClosing? c with
        | some b, _ => (scanWithin fuel cs).map (.opening b :: ·)
        | _, some b => (scanWithin fuel cs).map (.closing b :: ·)
        | none, none => do
          let (l, rest) ← leaf? (c :: cs)
          return l :: (← scanWithin fuel rest)

/-- The lexemes of a text.  A byte order mark at its start is passed over. -/
def scan (source : String) : Option (List Lexeme) :=
  let cs := source.toList
  let cs := if cs.head?.any (·.toNat == 0xFEFF) then cs.tail else cs
  scanWithin (cs.length + 1) cs

end Lexeme

end WireContract.Rust
