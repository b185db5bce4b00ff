import WireContract.Text.Split

/-!
# Tokens of Rust source

The flat list of tokens of a piece of source: words, single punctuation characters (brackets among
them), string literals by their value, and other literals as they are written.
-/

namespace WireContract.Rust

/-- A token. -/
inductive Token where
  /-- An identifier or keyword, or the index of a field. -/
  | word (s : String)
  /-- A punctuation character or bracket. -/
  | punct (c : Char)
  /-- A string literal, by its value. -/
  | literal (s : String)
  /-- A literal as it is written. -/
  | constant (written : String)
deriving DecidableEq, Repr

/-- A run of tokens. -/
abbrev Tokens := List Token

namespace Token

/-- The text of a token; nothing in a literal is escaped. -/
def text : Token → String
  | .word s => s
  | .punct c => String.singleton c
  | .literal s => "\"" ++ s ++ "\""
  | .constant written => written

end Token

namespace Tokens

/-- The tokens separated by blanks. -/
def text (ts : Tokens) : String :=
  Text.join " " (ts.map Token.text)

/-- A single word. -/
def word (s : String) : Tokens := [.word s]

/-- One token for each character. -/
def marks (s : String) : Tokens := s.toList.map .punct

/-- A lifetime. -/
def lifetime (l : String) : Tokens := marks "'" ++ word l

/-- The runs with commas between them. -/
def commas : List Tokens → Tokens
  | [] => []
  | [t] => t
  | t :: u :: ts => t ++ marks "," ++ commas (u :: ts)

/-- The runs with a comma after each. -/
def commaEnded (ts : List Tokens) : Tokens :=
  ts.flatMap (· ++ marks ",")

/-- The run in parentheses. -/
def parens (t : Tokens) : Tokens := marks "(" ++ t ++ marks ")"

/-- The run in square brackets. -/
def brackets (t : Tokens) : Tokens := marks "[" ++ t ++ marks "]"

/-- The run in braces. -/
def braces (t : Tokens) : Tokens := marks "\x7b" ++ t ++ marks "\x7d"

/-- The run in angle brackets, or nothing for an empty one. -/
def angles : List Tokens → Tokens
  | [] => []
  | t :: ts => marks "<" ++ commas (t :: ts) ++ marks ">"

end Tokens

end WireContract.Rust
