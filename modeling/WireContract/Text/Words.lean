import WireContract.Text.Case
import WireContract.Text.Split

/-!
# Names in different cases

Three ways to respell a name: `snake` (`MDEntryPx` gives `md_entry_px`), `pascal` (`my-shape` gives
`MyShape`) and `variant`, for names in upper case with underscores (`NOT_FOUND` gives `NotFound`).
Underscores, hyphens and blanks separate words for the first two, underscores alone for the third.
-/

namespace WireContract.Text

/-- The characters between two words of a name. -/
def isWordGap (c : Char) : Bool :=
  c == '_' || c == '-' || c == ' '

/-- Whether an uppercase character opens a word, by its neighbours: it follows a lowercase
character or a digit, or it ends a run of capitals. -/
def opensWord (before : Char) (after : Option Char) : Bool :=
  isLower before || isAsciiDigit before || (isUpper before && after.any isLower)

/-- Appends a gap to a respelled name, held in reverse, unless one is there. -/
def addGap (out : List Char) : List Char :=
  if out.head? == some '_' then out else '_' :: out

/-- The name in lower case with underscores, held in reverse; `before` is the character last
read. -/
def snakeFrom (before : Option Char) (out : List Char) : List Char → List Char
  | [] => out
  | c :: cs =>
    if isWordGap c then
      snakeFrom (some c) (if out.isEmpty then out else addGap out) cs
    else
      let opened := isUpper c && before.any (opensWord · cs.head?)
      snakeFrom (some c) ((lowerChars c).reverse ++ (if opened then addGap out else out)) cs

/-- The name in lower case, its words joined by underscores.  An underscore at the end is kept only
if the name itself ends in one. -/
def snakeChars (cs : List Char) : List Char :=
  let out := snakeFrom none [] cs
  if out.head? == some '_' && cs.getLast? != some '_' then out.tail.reverse else out.reverse

/-- The name in snake case. -/
def snake (s : String) : String :=
  String.ofList (snakeChars s.toList)

/-- The name with its words run together, each starting with a capital. -/
def pascalFrom (opening : Bool) : List Char → List Char
  | [] => []
  | c :: cs =>
    if isWordGap c then pascalFrom true cs
    else (if opening then asciiUpper c else c) :: pascalFrom false cs

/-- The name in Pascal case. -/
def pascal (s : String) : String :=
  String.ofList (pascalFrom true s.toList)

/-- A word with a capital first and the rest in lower case. -/
def capitalized : List Char → List Char
  | [] => []
  | c :: cs => asciiUpper c :: cs.map asciiLower

/-- The variant name of a value in upper case. -/
def variant (s : String) : String :=
  String.ofList ((splitOn '_' s.toList).flatMap capitalized)

end WireContract.Text
