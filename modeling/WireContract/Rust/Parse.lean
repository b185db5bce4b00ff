import WireContract.Rust.Plain

/-!
# Reading paths and plain files

`Path.parse?` reads a path such as `::my::runtime`, whose segments may have generic arguments.
`Plain.File.parse?` reads files of imports, module declarations and structures without fields.
-/

namespace WireContract.Rust

/-- The words that cannot be an identifier. -/
def reservedWords : List String := [
  "_", "abstract", "as", "async", "await", "become", "box", "break", "const", "continue", "crate",
  "do", "dyn", "else", "enum", "extern", "false", "final", "fn", "for", "if", "impl", "in", "let",
  "loop", "macro", "match", "mod", "move", "mut", "override", "priv", "pub", "ref", "return",
  "Self", "self", "static", "struct", "super", "trait", "true", "try", "type", "typeof", "unsafe",
  "unsized", "use", "virtual", "where", "while", "yield"]

/-- The reserved words that can be a segment of a path to a type. -/
def typeWords : List String := ["super", "self", "crate", "try", "Self"]

/-- The reserved words that are a segment without arguments. -/
def bareWords : List String := ["super", "self", "crate", "try"]

/-- The reserved words that can be a segment of a path to a module. -/
def moduleWords : List String := ["super", "self", "crate", "Self"]

/-- The reserved words that can be a segment of an import. -/
def importWords : List String := ["super", "self", "crate", "try"]

/-- An identifier at the front, where the reserved words in `allowed` count as one. -/
def Ident.parse? (allowed : List String) : List Tree → Option (Ident × List Tree)
  | .word w :: rest =>
    if !reservedWords.contains w || allowed.contains w then some (⟨w⟩, rest) else none
  | _ => none

namespace Path

/-- What follows a double colon at the front. -/
def afterColons? : List Tree → Option (List Tree)
  | .mark ':' true :: .mark ':' _ :: rest => some rest
  | _ => none

/-- Whether a double colon is at the front, and what follows it. -/
def colonsFront (ts : List Tree) : Bool × List Tree :=
  match afterColons? ts with
  | some rest => (true, rest)
  | none => (false, ts)

/-- The segments at the front, each after a double colon. -/
def segmentsAfter (allowed : List String) : (fuel : Nat) → List Tree → List Ident × List Tree
  | 0, ts => ([], ts)
  | fuel + 1, ts =>
    match (afterColons? ts).bind (Ident.parse? allowed) with
    | some (i, rest) =>
      let (is, rest) := segmentsAfter allowed fuel rest
      (i :: is, rest)
    | none => ([], ts)

/-- The path at the front. -/
def parseFront? (allowed : List String) (ts : List Tree) : Option (Path × List Tree) := do
  let (absolute, rest) := colonsFront ts
  let (first, rest) ← Ident.parse? allowed rest
  let (more, rest) := segmentsAfter allowed rest.length rest
  return (⟨absolute, first :: more, []⟩, rest)

/-- The path that is all of some trees. -/
def ofTrees? (allowed : List String) (ts : List Tree) : Option Path := do
  let (p, rest) ← parseFront? allowed ts
  if rest.isEmpty then some p else none

end Path

/-! ## Generic arguments

Arguments are read within `fuel` steps.  A step takes at least a lexeme or a group, or it is one of
the five from a type to the types among its arguments. -/

namespace Tree

/-- The lifetime at the front, if there is one, and what follows it. -/
def lifetimeFront : List Tree → Option String × List Tree
  | .mark '\'' _ :: .word l :: rest => (some l, rest)
  | ts => (none, ts)

/-- Whether a word is at the front, and what follows it. -/
def wordFront (w : String) : List Tree → Bool × List Tree
  | .word v :: rest => if v == w then (true, rest) else (false, .word v :: rest)
  | ts => (false, ts)

end Tree

/-- The arguments that were read, each with whether a comma follows it.  Lifetimes go first, and the
comma after the argument that is then the last one is kept. -/
def Generics.ofRead (colons : Bool) (read : List (GenericArg × Bool)) : Generics :=
  let ordered := read.filter (·.1.isLifetime) ++ read.filter (!·.1.isLifetime)
  .angles colons (.ofList (ordered.map (·.1))) (ordered.getLast?.any (·.2))

mutual

/-- The type at the front. -/
def ArgType.parse? : (fuel : Nat) → List Tree → Option (ArgType × List Tree)
  | 0, _ => none
  | fuel + 1, ts =>
    match ts with
    | .word w :: rest =>
      if w == "_" then some (.infer, rest)
      else if w == "try" then none
      else do
        let (p, rest) ← ArgPath.parse? fuel ts
        return (.path false p, rest)
    | .mark c _ :: rest =>
      if c == '!' then some (.never, rest)
      else if c == '&' then do
        let (lifetime, rest) := Tree.lifetimeFront rest
        let (mutable, rest) := Tree.wordFront "mut" rest
        let (t, rest) ← ArgType.parse? fuel rest
        return (.reference lifetime mutable t, rest)
      else if c == '*' then
        match Tree.wordFront "mut" rest, Tree.wordFront "const" rest with
        | (true, rest), _ => do
          let (t, rest) ← ArgType.parse? fuel rest
          return (.pointer true t, rest)
        | _, (true, rest) => do
          let (t, rest) ← ArgType.parse? fuel rest
          return (.pointer false t, rest)
        | _, _ => none
      else do
        let (p, rest) ← ArgPath.parse? fuel (← Path.afterColons? ts)
        return (.path true p, rest)
    | .group .square inner :: rest =>
      match ArgType.parse? fuel inner with
      | some (t, []) => some (.slice t, rest)
      | some (t, [.mark ';' _, .literal length]) => some (.array t length, rest)
      | _ => none
    | .group .round inner :: rest => do
      let (ts, comma) ← ArgTypes.parse? fuel inner
      return (.tuple ts comma, rest)
    | _ => none

/-- The types that some trees are, with commas between them, and whether a comma ends them. -/
def ArgTypes.parse? : (fuel : Nat) → List Tree → Option (ArgTypes × Bool)
  | 0, _ => none
  | _, [] => some (.nil, false)
  | fuel + 1, ts => do
    let (t, rest) ← ArgType.parse? fuel ts
    match rest with
    | [] => return (.cons t .nil, false)
    | [.mark ',' _] => return (.cons t .nil, true)
    | .mark ',' _ :: rest =>
      let (ts, comma) ← ArgTypes.parse? fuel rest
      return (.cons t ts, comma)
    | _ => none

/-- The segments at the front. -/
def ArgPath.parse? : (fuel : Nat) → List Tree → Option (ArgPath × List Tree)
  | 0, _ => none
  | fuel + 1, ts => do
    let (name, rest) ← Ident.parse? typeWords ts
    let (generics, rest) ←
      (if bareWords.contains name.text then some (.none, rest) else Generics.parse? fuel rest)
    match Path.afterColons? rest with
    | some rest =>
      let (p, rest) ← ArgPath.parse? fuel rest
      return (.cons name generics p, rest)
    | none => return (.cons name generics .nil, rest)

/-- The argument at the front. -/
def GenericArg.parse? : (fuel : Nat) → List Tree → Option (GenericArg × List Tree)
  | 0, _ => none
  | fuel + 1, ts =>
    match ts with
    | .mark '\'' _ :: .word l :: rest => some (.lifetime l, rest)
    | .literal written :: rest => some (.literal written, rest)
    | .mark '-' _ :: .literal written :: rest => some (.literal ("-" ++ written), rest)
    | .word "true" :: rest => some (.literal "true", rest)
    | .word "false" :: rest => some (.literal "false", rest)
    | ts => do
      let (t, rest) ← ArgType.parse? fuel ts
      match t, rest with
      | .path false (.cons name .none .nil), .mark '=' _ :: rest =>
        let (t, rest) ← ArgType.parse? fuel rest
        return (.binding name t, rest)
      | t, rest => return (.type t, rest)

/-- The arguments up to the closing bracket, each with whether a comma follows it. -/
def GenericArgs.parse? :
    (fuel : Nat) → List Tree → Option (List (GenericArg × Bool) × List Tree)
  | 0, _ => none
  | _, .mark '>' _ :: rest => some ([], rest)
  | fuel + 1, ts => do
    let (a, rest) ← GenericArg.parse? fuel ts
    match rest with
    | .mark '>' _ :: rest => return ([(a, false)], rest)
    | .mark ',' _ :: rest =>
      let (as, rest) ← GenericArgs.parse? fuel rest
      return ((a, true) :: as, rest)
    | _ => none

/-- The arguments of the segment before them, if it has any. -/
def Generics.parse? : (fuel : Nat) → List Tree → Option (Generics × List Tree)
  | 0, _ => none
  | fuel + 1, ts =>
    match ts with
    | .mark '<' _ :: rest => do
      let (args, rest) ← GenericArgs.parse? fuel rest
      return (.ofRead false args, rest)
    | .mark ':' true :: .mark ':' _ :: .mark '<' _ :: rest => do
      let (args, rest) ← GenericArgs.parse? fuel rest
      return (.ofRead true args, rest)
    | ts => some (.none, ts)

end

namespace Path

/-- The path with the given segments and their arguments. -/
def ofArgPath (absolute : Bool) (p : ArgPath) : Path :=
  ⟨absolute, p.names, (p.generics.reverse.dropWhile (· == .none)).reverse⟩

/-- The path that a text spells. -/
def parse? (source : String) : Option Path := do
  let ts ← Tree.parse? source
  let (absolute, ts) := colonsFront ts
  let (p, rest) ← ArgPath.parse? (5 * (Tree.sizeOfAll ts + 1)) ts
  if rest.isEmpty then some (ofArgPath absolute p) else none

end Path

namespace Plain

/-! ## Attributes -/

/-- A value at the front, as it is written: a literal, or a path. -/
def value? : List Tree → Option String
  | [.literal s] => some s
  | [.mark '-' _, .literal s] => some ("-" ++ s)
  | [.word "true"] => some "true"
  | [.word "false"] => some "false"
  | ts => (Path.ofTrees? typeWords ts).map Path.text

/-- An attribute from what stands in its brackets. -/
def Attr.ofTrees? (ts : List Tree) : Option Attr := do
  let (path, rest) ←
    match ts with
    | .word "unsafe" :: rest => some (Path.ofWords ["unsafe"], rest)
    | ts => Path.parseFront? moduleWords ts
  match rest with
  | [] => some ⟨path, .nothing⟩
  | [.group b inner] => some ⟨path, .group b inner⟩
  | .mark '=' _ :: rest => (value? rest).map fun written => ⟨path, .value written⟩
  | _ => none

/-- The attributes at the front of the item after them. -/
def outerAttrs? : List Tree → Option (List Attr × List Tree)
  | .mark '#' _ :: .group .square ts :: rest => do
    let a ← Attr.ofTrees? ts
    let (as, rest) ← outerAttrs? rest
    return (a :: as, rest)
  | rest => some ([], rest)

/-- The attributes at the front of the file around them. -/
def innerAttrs? : List Tree → Option (List Attr × List Tree)
  | .mark '#' _ :: .mark '!' _ :: .group .square ts :: rest => do
    let a ← Attr.ofTrees? ts
    let (as, rest) ← innerAttrs? rest
    return (a :: as, rest)
  | rest => some ([], rest)

/-! ## Visibilities -/

/-- The visibility at the front. -/
def visibility? : List Tree → Option (Visibility × List Tree)
  | .word "pub" :: .group .round [.word w] :: rest =>
    if ["crate", "self", "super"].contains w then some (.within (.ofWords [w]), rest)
    else some (.everyone, .group .round [.word w] :: rest)
  | .word "pub" :: .group .round (.word "in" :: ts) :: rest =>
    (Path.ofTrees? moduleWords ts).map fun p => (.within p, rest)
  | .word "pub" :: rest => some (.everyone, rest)
  | rest => some (.own, rest)

/-! ## Imports -/

mutual

/-- The import at the front; `rootable` says that paths in its groups may start outside the
crate. -/
def useTree? (rootable : Bool) : (fuel : Nat) → List Tree → Option (UseTree × List Tree)
  | 0, _ => none
  | fuel + 1, ts =>
    match ts with
    | .mark '*' _ :: rest => some (.all, rest)
    | .group .curly inner :: rest => do
      let trees ← useTrees? rootable fuel inner
      return (.group trees, rest)
    | ts => do
      let (head, rest) ← Ident.parse? importWords ts
      match Path.afterColons? rest, rest with
      | some rest, _ => do
        let (tree, rest) ← useTree? false fuel rest
        return (.path head tree, rest)
      | none, .word "as" :: rest => do
        let (other, rest) ← Ident.parse? ["_"] rest
        return (.renamed head other, rest)
      | none, _ => return (.item head, rest)

/-- The imports of a group, with commas between them. -/
def useTrees? (rootable : Bool) : (fuel : Nat) → List Tree → Option (List UseTree)
  | 0, _ => none
  | _, [] => some []
  | fuel + 1, ts => do
    let (tree, rest) ←
      match if rootable then Path.afterColons? ts else none with
      | some rest => (useTree? false fuel rest).map fun (tree, rest) => (.rooted tree, rest)
      | none => useTree? rootable fuel ts
    match rest with
    | [] => return [tree]
    | .mark ',' _ :: rest => return tree :: (← useTrees? rootable fuel rest)
    | _ => none

end

/-! ## Parameters -/

/-- The lifetimes at the front with plus signs between them. -/
def lifetimeBounds : List Tree → List String × List Tree
  | .mark '\'' _ :: .word w :: .mark '+' _ :: rest =>
    let (more, rest) := lifetimeBounds rest
    (("'" ++ w) :: more, rest)
  | .mark '\'' _ :: .word w :: rest => (["'" ++ w], rest)
  | rest => ([], rest)

/-- The bound at the front: a lifetime, or a trait that may be optional. -/
def bound? : List Tree → Option (String × List Tree)
  | .mark '\'' _ :: .word w :: rest => some ("'" ++ w, rest)
  | .mark '?' _ :: rest =>
    (Path.parseFront? typeWords rest).map fun (p, rest) => ("?" ++ p.text, rest)
  | rest => (Path.parseFront? typeWords rest).map fun (p, rest) => (p.text, rest)

/-- The bounds at the front with plus signs between them. -/
def bounds? : (fuel : Nat) → List Tree → Option (List String × List Tree)
  | 0, _ => none
  | fuel + 1, ts =>
    match ts with
    | .mark ',' _ :: _ => some ([], ts)
    | .mark '>' _ :: _ => some ([], ts)
    | .mark '=' _ :: _ => some ([], ts)
    | ts => do
      let (b, rest) ← bound? ts
      match rest with
      | .mark '+' _ :: rest => do
        let (bs, rest) ← bounds? fuel rest
        return (b :: bs, rest)
      | rest => return ([b], rest)

/-- The parameter at the front. -/
def param? : List Tree → Option (Param × List Tree)
  | .mark '\'' _ :: .word w :: .mark ':' _ :: rest =>
    let (bounds, rest) := lifetimeBounds rest
    some (.lifetime ("'" ++ w) bounds, rest)
  | .mark '\'' _ :: .word w :: rest => some (.lifetime ("'" ++ w) [], rest)
  | .word "const" :: rest => do
    let (name, rest) ← Ident.parse? [] rest
    match rest with
    | .mark ':' _ :: rest => do
      let (type, rest) ← Path.parseFront? typeWords rest
      match rest with
      | .mark '=' _ :: .literal s :: rest => return (.const name type (some s), rest)
      | rest => return (.const name type none, rest)
    | _ => none
  | rest => do
    let (name, rest) ← Ident.parse? [] rest
    let (bounds, rest) ←
      match rest with
      | .mark ':' _ :: rest => bounds? (rest.length + 1) rest
      | rest => some ([], rest)
    match rest with
    | .mark '=' _ :: rest => do
      let (p, rest) ← Path.parseFront? typeWords rest
      return (.type name bounds (some p), rest)
    | rest => return (.type name bounds none, rest)

/-- The parameters up to the closing angle bracket. -/
def paramsUntil? : (fuel : Nat) → List Tree → Option (List Param × List Tree)
  | 0, _ => none
  | fuel + 1, ts =>
    match ts with
    | .mark '>' _ :: rest => some ([], rest)
    | ts => do
      let (p, rest) ← param? ts
      match rest with
      | .mark '>' _ :: rest => return ([p], rest)
      | .mark ',' _ :: rest => do
        let (ps, rest) ← paramsUntil? fuel rest
        return (p :: ps, rest)
      | _ => none

/-- The parameters at the front, if there are any. -/
def params? : List Tree → Option (List Param × List Tree)
  | .mark '<' _ :: rest => paramsUntil? (rest.length + 1) rest
  | rest => some ([], rest)

/-! ## Items and files -/

/-- What follows a semicolon at the front. -/
def afterSemicolon? : List Tree → Option (List Tree)
  | .mark ';' _ :: rest => some rest
  | _ => none

/-- The item at the front; `fuel` bounds the nesting of imports. -/
def item? (fuel : Nat) (ts : List Tree) : Option (Item × List Tree) := do
  let (attrs, rest) ← outerAttrs? ts
  let (v, rest) ← visibility? rest
  let module (isUnsafe : Bool) (rest : List Tree) : Option (Item × List Tree) := do
    let (name, rest) ← Ident.parse? ["try"] rest
    return (.module attrs v isUnsafe name, ← afterSemicolon? rest)
  match rest with
  | .word "use" :: rest =>
    let (absolute, rest) := Path.colonsFront rest
    let (tree, rest) ← useTree? (!absolute) fuel rest
    return (.use attrs v absolute tree, ← afterSemicolon? rest)
  | .word "mod" :: rest => module false rest
  | .word "unsafe" :: .word "mod" :: rest => module true rest
  | .word "struct" :: rest =>
    let (name, rest) ← Ident.parse? [] rest
    let (params, rest) ← params? rest
    return (.struct attrs v name params, ← afterSemicolon? rest)
  | _ => none

/-- All items, within `steps`. -/
def items? (fuel : Nat) : (steps : Nat) → List Tree → Option (List Item)
  | _, [] => some []
  | 0, _ => none
  | steps + 1, ts => do
    let (item, rest) ← item? fuel ts
    return item :: (← items? fuel steps rest)

/-- The file of some trees. -/
def File.parse? (ts : List Tree) : Option File := do
  let (inner, rest) ← innerAttrs? ts
  return ⟨inner, ← items? (Tree.sizeOfAll rest + 1) rest.length rest⟩

end Plain

end WireContract.Rust
