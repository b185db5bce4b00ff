import WireContract.Rust.Item
import WireContract.Rust.Parse

/-!
# Files that can be read back

The tokens of a file are read back before it is written.  The forms that files are made of give no
reason to fail, but a name or a path in them can: a name that is reserved, and a path at a place
whose grammar does not have it.  `File.parses` goes through the names and paths of a file.

A type that starts with a path does not start with `try`.  Where a value is expected, generic
arguments without a double colon before them are read as comparisons, and comparisons cannot be
chained: `a<b>::c` is refused.  What separates the two comparisons makes them acceptable again: the
sign of an assignment anywhere, and a comma in a list of arguments.
-/

namespace WireContract.Rust

/-- The places where a path can stand. -/
inductive Place where
  /-- In a type. -/
  | type
  /-- At the start of a value. -/
  | value
  /-- At the start of one of the arguments of a call. -/
  | argument
  /-- In front of the parts of a pattern or record. -/
  | constructor
  /-- In an import. -/
  | import
deriving DecidableEq, Repr

/-- Whether an identifier is no reserved word. -/
def Ident.isFree (i : Ident) : Bool := !reservedWords.contains i.text

namespace Path

/-- Whether the segments are no reserved words but those in `allowed`. -/
def admits (allowed : List String) (p : Path) : Bool :=
  p.segments.all fun i => i.isFree || allowed.contains i.text

/-- Whether the path starts with `try`. -/
def startsWithTry (p : Path) : Bool := !p.absolute && p.segments.head? == some ⟨"try"⟩

/-- The arguments that are not read as such where a value is expected. -/
def openGenerics (p : Path) : List Generics := p.generics.filter (!·.isClosed)

/-- Whether a path can stand at a place.  A path with open arguments goes on after them, as all that
are generated do. -/
def stands (p : Path) : Place → Bool
  | .type => p.admits typeWords && !p.startsWithTry
  | .value =>
    p.admits typeWords &&
      match p.openGenerics with
      | [] => true
      | [g] => g.isAssignment
      | _ => false
  | .argument =>
    p.admits typeWords &&
      match p.openGenerics with
      | [] => true
      | [g] => g.isAssignment || g.isList
      | _ => false
  | .constructor => p.admits typeWords && p.openGenerics.isEmpty
  | .import => p.admits importWords && p.generics.isEmpty

/-- Whether a path can start any type and any value. -/
def isUnrestricted (p : Path) : Bool := p.stands .type && p.stands .value

end Path

/-! ## Types, patterns and expressions -/

namespace Ty

mutual

/-- Whether a type can be read back. -/
def parses : Ty → Bool
  | .named p _ args => p.stands .type && parsesAll args
  | .reference _ _ t => parses t
  | .slice t => parses t
  | .dyn t => parses t
  | .some t => parses t

/-- Whether each type can be read back. -/
def parsesAll : List Ty → Bool
  | [] => true
  | t :: ts => parses t && parsesAll ts

end

end Ty

namespace Pat

mutual

/-- Whether a pattern can be read back. -/
def parses : Pat → Bool
  | .wild => true
  | .bind i => i.isFree
  | .literal _ => true
  | .path p => p.stands .constructor
  | .make p args => p.stands .constructor && parsesAll args
  | .tuple args => parsesAll args

/-- Whether each pattern can be read back. -/
def parsesAll : List Pat → Bool
  | [] => true
  | p :: ps => parses p && parsesAll ps

end

end Pat

namespace Expr

mutual

/-- Whether an expression can be read back at a place; the path that it starts with stands there.
What stands in the call of a macro is not looked at. -/
def parses (place : Place) : Expr → Bool
  | .path p => p.stands place
  | .qualified t p i => t.parses && p.stands .type && i.isFree
  | .literals _ => true
  | .literal _ => true
  | .reference _ e => parses place e
  | .field e name => parses place e && (Ident.mk name).isFree
  | .call f args => parses place f && parsesAll args
  | .method e name args => parses place e && (Ident.mk name).isFree && parsesAll args
  | .orReturn e => parses place e
  | .record p fields _ => p.stands .constructor && fields.all Ident.isFree
  | .closure param body => param.parses && parses place body
  | .vec _ => true
  | .test _ _ => true

/-- Whether each of the arguments of a call can be read back. -/
def parsesAll : List Expr → Bool
  | [] => true
  | e :: es => parses .argument e && parsesAll es

end

end Expr

/-- Whether a case can be read back. -/
def Arm.parses (a : Arm) : Bool := a.pattern.parses && a.body.parses .value

/-- Whether the value of a function can be read back. -/
def Tail.parses : Tail → Bool
  | .expr e => e.parses .value
  | .choose subject arms => subject.parses .value && arms.all Arm.parses
  | .make p fields =>
    p.stands .constructor && fields.all fun (i, e) => i.isFree && e.parses .value

/-- Whether the body of a function can be read back. -/
def Body.parses (b : Body) : Bool :=
  (b.lets.all fun (i, e) => i.isFree && e.parses .value) && b.tail.parses

/-! ## Items and files -/

/-- Whether a field can be read back. -/
def RecordField.parses (f : RecordField) : Bool := f.name.isFree && f.type.parses

/-- Whether a variant can be read back. -/
def Variant.parses (v : Variant) : Bool := v.name.isFree && v.type.all Ty.parses

/-- Whether a type parameter can be read back. -/
def TypeParam.parses (p : TypeParam) : Bool := (Ident.mk p.name).isFree && p.bound.parses

/-- Whether the head of a function can be read back. -/
def Signature.parses (s : Signature) : Bool :=
  s.name.isFree && s.param.all TypeParam.parses &&
    (s.args.all fun (i, t) => i.isFree && t.parses) && s.result.all Ty.parses

/-- Whether a member of an implementation can be read back. -/
def ImplMember.parses : ImplMember → Bool
  | .const _ name t e => (Ident.mk name).isFree && t.parses && e.parses .value
  | .type name t => (Ident.mk name).isFree && t.parses
  | .function _ _ s b => s.parses && b.parses

/-- Whether a member of a trait can be read back. -/
def TraitMember.parses : TraitMember → Bool
  | .type _ name => (Ident.mk name).isFree
  | .function _ s => s.parses

/-- Whether the fields of a structure can be read back. -/
def Fields.parses : Fields → Bool
  | .unit => true
  | .single t => t.parses
  | .named fields => fields.all RecordField.parses

/-- Whether the end of an import can be read back. -/
def Import.parses : Import → Bool
  | .item => true
  | .renamed i => i.isFree
  | .all => true

namespace Item

mutual

/-- Whether an item can be read back. -/
def parses : Item → Bool
  | .use _ _ p what => p.stands .import && what.parses
  | .module _ _ name => name.isFree
  | .inlineModule _ _ name _ items => name.isFree && parsesAll items
  | .struct _ _ name fields => name.isFree && fields.parses
  | .enum _ name variants => name.isFree && variants.all Variant.parses
  | .trait _ name members => name.isFree && members.all TraitMember.parses
  | .impl _ ofTrait self members =>
    ofTrait.all Ty.parses && self.parses && members.all ImplMember.parses

/-- Whether each item can be read back. -/
def parsesAll : List Item → Bool
  | [] => true
  | i :: is => parses i && parsesAll is

end

end Item

/-- Whether a file can be read back. -/
def File.parses (f : File) : Bool := Item.parsesAll f.items

end WireContract.Rust
