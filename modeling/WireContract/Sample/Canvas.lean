import WireContract.Schema.Contract

/-!
# A contract with every kind of declaration

Circles and squares on a canvas, trees, expressions and the requests of two versions of a service.
Between them the declarations have every form that values take on the wire: chains of aliases,
defaulted collections, optionals, recursion through lists, optionals and unions, two records of one
name in different modules, and errors with safe and unsafe parameters.
-/

namespace WireContract.Sample.Canvas

open Schema

/-! ## Names -/

/-- A name in the module of shared types. -/
def common (name : String) : QualifiedName := ⟨"com.example.common", name⟩

/-- A name in the module of shapes. -/
def shapes (name : String) : QualifiedName := ⟨"com.example.shapes", name⟩

/-- The request of the first version. -/
def requestV1 : QualifiedName := ⟨"com.example.v1.api", "Request"⟩

/-- The request of the second version. -/
def requestV2 : QualifiedName := ⟨"com.example.v2.api", "Request"⟩

/-- A request of either version. -/
def batch : QualifiedName := ⟨"com.example.client", "Batch"⟩

/-! ## Declarations -/

/-- A field without docs. -/
def plainField (name : String) (type : TypeRef) : Field := ⟨name, type, none, none⟩

/-- A member without docs. -/
def plainMember (tag : String) (type : TypeRef) : Member := ⟨tag, type, none⟩

/-- A parameter without docs. -/
def plainParam (safety : Safety) (name : String) (type : TypeRef) : Param :=
  ⟨name, type, safety, none⟩

/-- Text. -/
def string : TypeRef := .primitive .string

/-- An alias of text. -/
def userId : Alias := ⟨common "UserId", string, some "Opaque user identifier."⟩

/-- An alias of an alias. -/
def accountId : Alias := ⟨common "AccountId", .declared (common "UserId"), none⟩

/-- An alias of a list. -/
def tags : Alias := ⟨common "Tags", .list string, none⟩

/-- Colours. -/
def color : Enum where
  name := common "Color"
  values := [⟨"RED", none⟩, ⟨"GREEN", some "The default."⟩, ⟨"BLUE", none⟩]
  docs := none

/-- A record with fields of every rule. -/
def circle : Object where
  name := shapes "Circle"
  fields := [
    plainField "radius" (.primitive .double),
    plainField "color" (.optional (.declared (common "Color"))),
    plainField "tags" (.list string),
    plainField "labels" (.map string (.primitive .integer)),
    plainField "owner" (.declared (common "AccountId")),
    plainField "createdAt" (.optional (.primitive .datetime)),
    plainField "id" (.optional (.primitive .uuid)),
    plainField "payload" (.optional .binary)]
  docs := some "A circle on the canvas."

/-- A union of shapes. -/
def shape : Union where
  name := shapes "Shape"
  members := [
    plainMember "circle" (.declared (shapes "Circle")),
    plainMember "square" (.primitive .double),
    plainMember "field1" string]
  docs := none

/-- A record that holds itself in a list and in an optional. -/
def treeNode : Object where
  name := shapes "TreeNode"
  fields := [
    plainField "value" (.primitive .integer),
    plainField "children" (.list (.declared (shapes "TreeNode"))),
    plainField "parent" (.optional (.declared (shapes "TreeNode"))),
    plainField "tags" (.declared (common "Tags"))]
  docs := none

/-- A union that holds itself. -/
def expr : Union where
  name := shapes "Expr"
  members := [
    plainMember "literal" (.primitive .safelong),
    plainMember "negate" (.declared (shapes "Expr"))]
  docs := none

/-- An error with an optional parameter. -/
def shapeNotFound : ErrorDecl where
  name := shapes "ShapeNotFound"
  namespaceName := "Shapes"
  code := .notFound
  params := [
    plainParam .safe "shapeId" string,
    plainParam .sensitive "owner" (.optional (.declared (common "UserId")))]
  docs := some "No shape exists with the given identifier."

/-- An error whose parameters are all required. -/
def nameError : ErrorDecl where
  name := ⟨"com.example.errors", "Name"⟩
  namespaceName := "Ns"
  code := .notFound
  params := [
    plainParam .safe "a" (.primitive .integer),
    plainParam .sensitive "b" string]
  docs := none

/-- The record of a request of the first version. -/
def requestObjectV1 : Object :=
  ⟨requestV1, [plainField "shape" (.declared (shapes "Shape"))], none⟩

/-- The record of a request of the second version. -/
def requestObjectV2 : Object where
  name := requestV2
  fields := [
    plainField "shapes" (.list (.declared (shapes "Shape"))),
    plainField "legacy" (.optional (.declared requestV1))]
  docs := none

/-- The record of a request of either version. -/
def batchObject : Object :=
  ⟨batch, [plainField "first" (.declared requestV1), plainField "second" (.declared requestV2)],
    none⟩

/-- The declarations, ordered by name. -/
def registry : Registry where
  declarations := [
    .object batchObject,
    .alias accountId,
    .enum color,
    .alias tags,
    .alias userId,
    .error nameError,
    .object circle,
    .union expr,
    .union shape,
    .error shapeNotFound,
    .object treeNode,
    .object requestObjectV1,
    .object requestObjectV2]

end WireContract.Sample.Canvas
