import WireContract.Emit.Holder
import WireContract.Emit.Newtype
import WireContract.Emit.OpenEnum
import WireContract.Emit.TaggedUnion
import WireContract.Rust.Place
import WireContract.Rust.Source

/-!
# The tree of generated files

Each module of a contract becomes a package with one file for each group of declarations that it
has.  Packages are arranged by the segments of their paths in a `Forest`; every node has a module
file that declares its subpackages and includes its own files.  The whole tree can also be written
as one file of nested modules.

The files of modules are read back as they are built, since the path of the runtime library stands
in them as it was given.
-/

namespace WireContract.Emit

open Rust Schema

/-! ## Options and errors -/

/-- What to emit, and against which runtime library. -/
structure Options where
  runtime : String := "wiregen_core"
  /-- Whether visitors that return values are emitted. -/
  visitors : Bool := true
  /-- Whether errors get what servers need. -/
  server : Bool := false
deriving DecidableEq, Repr

/-- Why nothing was emitted. -/
inductive EmitError where
  | schema (e : SchemaError)
  /-- The runtime path is not a path. -/
  | badRuntime
  /-- The tokens of a file cannot be read back. -/
  | notAFile (context : String)
  /-- A module has the name of a generated file beside it. -/
  | collision (module file : String)
  /-- A path could not be written. -/
  | unwritable (path : String)
deriving Repr

/-- The text of an error, if it depends on nothing but the contract. -/
def EmitError.message? : EmitError → Option String
  | .schema e => e.message?.map ("schema error: " ++ ·)
  | .collision module file =>
    some ("module '" ++ module ++ "' collides with the generated '" ++ file ++
      ".rs' of its parent package")
  | _ => none

/-! ## Groups -/

/-- A group of declarations that share a file. -/
inductive Group where
  | aliases
  | enums
  | objects
  | unions
  | errors
  | visitors
deriving DecidableEq, Repr

namespace Group

/-- All groups, in the order of files. -/
def all : List Group := [aliases, enums, objects, unions, errors, visitors]

/-- The name of the group's file, without extension. -/
def stem : Group → String
  | aliases => "aliases"
  | enums => "enums"
  | objects => "objects"
  | unions => "unions"
  | errors => "errors"
  | visitors => "visitors"

/-- The feature that visitors with values depend on. -/
def visitorFeature : String := "generic-visitors"

/-- Whether the file is compiled only with a feature. -/
def isGated (g : Group) : Bool := g == visitors

/-- The comments under the header of the file. -/
def comments (g : Group) : List String :=
  if g.isGated then ["Compiled only with the `" ++ visitorFeature ++ "` feature."] else []

/-- The attribute that makes an item depend on the group's feature. -/
def gate (g : Group) : List Attr :=
  if g.isGated then [.ofArgs "cfg" [.keyed "feature" visitorFeature]] else []

/-- Whether a declaration goes into the group's file. -/
def has (g : Group) (d : Declaration) : Bool :=
  match g, d with
  | aliases, .alias _ => true
  | enums, .enum _ => true
  | objects, .object _ => true
  | unions, .union _ => true
  | errors, .error _ => true
  | visitors, .union _ => true
  | _, _ => false

/-- The items of a declaration in the group's file. -/
def items (g : Group) (scope : Scope) (server : Bool) (d : Declaration) : List Item :=
  match g, d with
  | visitors, .union u => visitorItems scope u
  | _, .alias a => aliasItems scope a
  | _, .enum e => enumItems scope e
  | _, .object o => objectItems scope o
  | _, .union u => unionItems scope u
  | _, .error e => errorItems scope server e

end Group

/-! ## Files -/

/-- A generated file of a package. -/
structure SourceFile where
  group : Group
  file : File
deriving Repr

/-- The scope of a file in a module that holds some declarations. -/
def scopeOf (c : Contract) (runtime : Path) (module : String) (ds : List Declaration) : Scope :=
  let mentioned := ds.flatMap fun d => d.mentions.map (·.module)
  ⟨c, runtime, Imports.ofModules module mentioned ((runtime.segments.head?.map (·.text)).toList)⟩

/-- The file of a group in a module, for the declarations of the group. -/
def fileOf (c : Contract) (runtime : Path) (server : Bool) (module : String) (g : Group)
    (ds : List Declaration) : File :=
  let scope := scopeOf c runtime module ds
  ⟨g.gate, scope.imports.items ++ ds.flatMap (g.items scope server)⟩

/-- The groups that are emitted. -/
def Options.groups (o : Options) : List Group :=
  Group.all.filter fun g => o.visitors || g != .visitors

/-- The files of a module: one for each group that has a declaration. -/
def moduleFiles (c : Contract) (runtime : Path) (o : Options) (module : String) :
    List SourceFile :=
  o.groups.filterMap fun g =>
    let ds := (c.registry.moduleDeclarations module).filter g.has
    if ds.isEmpty then none else some ⟨g, fileOf c runtime o.server module g ds⟩

/-! ## The tree -/

/-- Packages beside each other, in the order of their names; each has its files and the packages
below it. -/
inductive Forest where
  | nil
  | cons (name : String) (files : List SourceFile) (below rest : Forest)
deriving Repr

namespace Forest

/-- The names of the packages. -/
def names : Forest → List String
  | .nil => []
  | .cons name _ _ rest => name :: rest.names

/-- Changes the package with a name, which is added, empty, if it is not there. -/
def alter (name : String) (change : List SourceFile → Forest → List SourceFile × Forest) :
    Forest → Forest
  | .nil =>
    let (files, below) := change [] .nil
    .cons name files below .nil
  | .cons other files below rest =>
    if name == other then
      let (files, below) := change files below
      .cons other files below rest
    else if name < other then
      let (new, newBelow) := change [] .nil
      .cons name new newBelow (.cons other files below rest)
    else .cons other files below (rest.alter name change)

/-- Gives the package at a path its files. -/
def insert (files : List SourceFile) : List String → Forest → Forest
  | [], f => f
  | [name], f => f.alter name fun _ below => (files, below)
  | name :: next :: path, f =>
    f.alter name fun own below => (own, below.insert files (next :: path))

/-- The file that declares subpackages and includes files. -/
def packageFile (files : List SourceFile) (below : Forest) : File :=
  ⟨[], below.names.map (fun name => .module [] true (Ident.ofName name)) ++
    files.flatMap fun f =>
      let stem := Ident.ofName f.group.stem
      [.module f.group.gate false stem,
       .use f.group.gate true ⟨false, [⟨"self"⟩, stem], []⟩ .all]⟩

/-- The items of files, written inside the module that holds them. -/
def inlineFiles (files : List SourceFile) : List Item :=
  files.flatMap fun f =>
    let stem := Ident.ofName f.group.stem
    [.inlineModule f.group.gate false stem f.file.inner f.file.items,
     .use f.group.gate true ⟨false, [⟨"self"⟩, stem], []⟩ .all]

/-- The packages as nested modules. -/
def nestedItems : Forest → List Item
  | .nil => []
  | .cons name files below rest =>
    .inlineModule [] true (Ident.ofName name) [] (below.nestedItems ++ inlineFiles files) ::
      rest.nestedItems

/-- The first subpackage, in the order of the tree, that has the name of a file beside it; `path`
leads to the packages. -/
def collision? (path : String) : Forest → Option (String × String)
  | .nil => none
  | .cons name files below rest =>
    let here := if path.isEmpty then name else path ++ "." ++ name
    let own := below.names.findSome? fun child =>
      (files.find? (·.group.stem == child)).map fun f => (here ++ "." ++ child, f.group.stem)
    own.or ((below.collision? here).or (rest.collision? path))

end Forest

/-! ## Rendering -/

/-- A file of the tree, before it is laid out. -/
structure TreeFile where
  path : List String
  comments : List String
  file : File

namespace Forest

/-- The name of the file that declares a package. -/
def moduleFileName : String := "mod.rs"

/-- The files of packages below a directory: for each package its module file, its own files, and
the packages below it. -/
def filesUnder (dir : List String) : Forest → List TreeFile
  | .nil => []
  | .cons name files below rest =>
    let here := dir ++ [name]
    ⟨here ++ [moduleFileName], [], packageFile files below⟩ ::
      files.map (fun f => ⟨here ++ [f.group.stem ++ ".rs"], f.group.comments, f.file⟩) ++
      below.filesUnder here ++ rest.filesUnder dir

/-- All files of the tree. -/
def files (f : Forest) : List TreeFile :=
  ⟨[moduleFileName], [], packageFile [] f⟩ :: f.filesUnder []

/-- The whole tree as one file. -/
def bundle (f : Forest) : File := ⟨[], f.nestedItems⟩

end Forest

/-- A file with its text. -/
structure Rendered where
  path : String
  contents : String
deriving DecidableEq, Repr

/-- The path of a file, relative to the root of the tree. -/
def TreeFile.pathText (f : TreeFile) : String := Text.join "/" f.path

/-- The file with its text. -/
def TreeFile.render (f : TreeFile) : Rendered := ⟨f.pathText, f.file.source f.comments⟩

/-- The files of the tree with their texts. -/
def Forest.render (f : Forest) : List Rendered := f.files.map TreeFile.render

/-- The text of the whole tree as one file. -/
def Forest.bundleText (f : Forest) : String := f.bundle.source []

/-! ## Emission -/

/-- The tree of a contract. -/
def forestOf (c : Contract) (runtime : Path) (o : Options) : Forest :=
  c.registry.modules.foldl
    (fun f m => f.insert (moduleFiles c runtime o m) (Text.split '.' m)) .nil

/-- How an error names the file of a group in a module. -/
def fileContext (module : String) (g : Group) : String := module ++ "::" ++ g.stem ++ ".rs"

/-- The first file of a module, in the order of modules, that cannot be read back. -/
def unread? (c : Contract) (runtime : Path) (o : Options) : Option String :=
  c.registry.modules.findSome? fun module =>
    ((moduleFiles c runtime o module).find? (!·.file.parses)).map (fileContext module ·.group)

/-- Emits a contract against the runtime library at a path. -/
def emitAgainst (c : Contract) (runtime : Path) (o : Options) : Except EmitError Forest :=
  match unread? c runtime o with
  | some context => .error (.notAFile context)
  | none =>
    let f := forestOf c runtime o
    match f.collision? "" with
    | some (module, file) => .error (.collision module file)
    | none => .ok f

/-- Emits a contract. -/
def emit (c : Contract) (o : Options) : Except EmitError Forest :=
  match Path.parse? o.runtime with
  | none => .error .badRuntime
  | some runtime => emitAgainst c runtime o

/-- Emits the contract of a document text. -/
def emitText (text : String) (o : Options) : Except EmitError Forest := do
  emit (← (Contract.load text).mapError .schema) o

end WireContract.Emit
