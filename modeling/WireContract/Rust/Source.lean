import WireContract.Layout.Render
import WireContract.Rust.Item
import WireContract.Rust.UseBlock

/-!
# Source text of generated files

A generated file starts with a fixed header and comment lines of its own; the items follow in their
layout, with the imports gathered.
-/

namespace WireContract.Rust

/-- The first line of every generated file. -/
def header : String := "// Code generated by wiregen. DO NOT EDIT."

/-- A body under the header and some comment lines, with its imports gathered. -/
def withHeader (comments : List String) (body : String) : String :=
  let comments := comments.map fun line => "// " ++ line ++ "\n"
  header ++ "\n" ++ String.join comments ++ "\n" ++ gatherUses body

/-- The text of a file, with some comment lines under the header. -/
def File.source (f : File) (comments : List String) : String :=
  withHeader comments f.doc.render

end WireContract.Rust
