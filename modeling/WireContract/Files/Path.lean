import WireContract.Text.Case
import WireContract.Text.Split

/-!
# Paths as text

A path is a text of names with slashes between them; a slash at its start makes it absolute.  Empty
names and single dots after the first name say nothing and are passed over when a path is shortened.
-/

namespace WireContract.Files

/-- Without slashes and single dots at the end; the characters are given last first. -/
def trimTail : List Char → List Char
  | '/' :: rest => trimTail rest
  | '.' :: '/' :: rest => trimTail rest
  | cs => cs

/-- Whether a path starts at the root. -/
def isAbsolute (path : String) : Bool :=
  path.toList.head? == some '/'

/-- The path without its last name. -/
def parent? (path : String) : Option String :=
  match trimTail path.toList.reverse with
  | [] => none
  | cs =>
    match trimTail (cs.dropWhile (· != '/')) with
    | [] => some (if isAbsolute path then "/" else "")
    | up => some (String.ofList up.reverse)

/-- The path, its parent, the parent of that, and so on, within `fuel` steps. -/
def ancestorsWithin : (fuel : Nat) → String → List String
  | 0, path => [path]
  | fuel + 1, path =>
    match parent? path with
    | none => [path]
    | some up => path :: ancestorsWithin fuel up

/-- The path, its parent, the parent of that, and so on.  Each is shorter than the one before. -/
def ancestors (path : String) : List String :=
  ancestorsWithin path.length path

/-- The path of something inside a directory. -/
def join (dir name : String) : String :=
  if dir.isEmpty then name
  else if dir.toList.getLast? == some '/' then dir ++ name
  else dir ++ "/" ++ name

/-- The last name of a path, unless it is a dot or two. -/
def fileName? (path : String) : Option String :=
  let name := String.ofList ((trimTail path.toList.reverse).takeWhile (· != '/')).reverse
  if name == "" || name == "." || name == ".." then none else some name

/-- What stands after the last dot of the last name, if something stands before it. -/
def extension? (path : String) : Option String :=
  match fileName? path with
  | none => none
  | some name =>
    match (Text.split '.' name).reverse with
    | ext :: stem :: rest => if stem == "" && rest.isEmpty then none else some ext
    | _ => none

/-- Whether the extension is `json`, in any case of letters. -/
def isJson (path : String) : Bool :=
  match extension? path with
  | some ext => ext.toList.map Text.asciiLower == "json".toList
  | none => false

end WireContract.Files
