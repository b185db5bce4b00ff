import WireContract.Rust.Lexeme

/-!
# Trees of lexemes

In a tree the lexemes between two brackets are one group.  `Tree.ofLexemes?` gives the trees of a
row of lexemes, unless its brackets do not open and close in turn.
-/

namespace WireContract.Rust

/-- A lexeme that is no bracket, or a group of trees in brackets. -/
inductive Tree where
  | word (s : String)
  | mark (c : Char) (joint : Bool)
  | literal (written : String)
  | group (b : Bracket) (inner : List Tree)
deriving Inhabited, Repr

namespace Tree

/-- An open group: its bracket and the trees before it, the last first. -/
abbrev Open := Bracket × List Tree

/-- Builds the trees; `outer` holds the open groups, the innermost first, and `done` the trees of
the innermost group, the last first. -/
def build (outer : List Open) (done : List Tree) : List Lexeme → Option (List Tree)
  | [] => if outer.isEmpty then some done.reverse else none
  | .word s :: ls => build outer (.word s :: done) ls
  | .mark c joint :: ls => build outer (.mark c joint :: done) ls
  | .literal written :: ls => build outer (.literal written :: done) ls
  | .opening b :: ls => build ((b, done) :: outer) [] ls
  | .closing b :: ls =>
    match outer with
    | [] => none
    | (opened, before) :: outer =>
      if opened == b then build outer (.group b done.reverse :: before) ls else none

/-- The trees of some lexemes. -/
def ofLexemes? (ls : List Lexeme) : Option (List Tree) := build [] [] ls

mutual

/-- The number of lexemes and groups in a tree. -/
def size : Tree → Nat
  | .group _ inner => sizeOfAll inner + 1
  | _ => 1

/-- The number of lexemes and groups in trees. -/
def sizeOfAll : List Tree → Nat
  | [] => 0
  | t :: ts => size t + sizeOfAll ts

end

/-- The trees of a source text. -/
def parse? (source : String) : Option (List Tree) := do
  ofLexemes? (← Lexeme.scan source)

end Tree

end WireContract.Rust
