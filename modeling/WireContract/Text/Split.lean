/-!
# Cutting text at a separator

`splitOn` cuts at every occurrence of one character and keeps the pieces between, empty ones
included; `join` puts pieces back together.
-/

namespace WireContract.Text

/-- The pieces between the occurrences of a separator; a text without it is one piece. -/
def splitOn (sep : Char) : List Char → List (List Char)
  | [] => [[]]
  | c :: cs =>
    match splitOn sep cs with
    | [] => [[c]]
    | piece :: pieces => if c == sep then [] :: piece :: pieces else (c :: piece) :: pieces

/-- The pieces of a string, as strings. -/
def split (sep : Char) (s : String) : List String :=
  (splitOn sep s.toList).map String.ofList

/-- The pieces with a separator between each two. -/
def join (sep : String) : List String → String
  | [] => ""
  | [s] => s
  | s :: rest => s ++ sep ++ join sep rest

end WireContract.Text
