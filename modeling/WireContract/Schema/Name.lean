import WireContract.Text.Split

/-!
# Qualified names

A declaration is known by its module path and its identifier within the module.  Names are ordered
by module first; text is ordered by code points, which is the order of its UTF-8 bytes.
-/

namespace WireContract.Schema

/-- A module path and an identifier. -/
structure QualifiedName where
  module : String
  name : String
deriving DecidableEq, Repr, Inhabited

namespace QualifiedName

/-- The name as text, `module.name`. -/
def text (q : QualifiedName) : String :=
  q.module ++ "." ++ q.name

/-- The segments of the module path. -/
def segments (q : QualifiedName) : List String :=
  Text.split '.' q.module

/-- Module first, then identifier. -/
def le (a b : QualifiedName) : Bool :=
  if a.module == b.module then decide (a.name ≤ b.name) else decide (a.module ≤ b.module)

end QualifiedName

end WireContract.Schema
