import Mathlib.Data.List.Basic
import Mathlib.Tactic.Common
import WireContract.Emit.Package

/-!
# Which files can be read back

The identifiers that are built from names are no reserved words, whatever the names are, and the
paths that generated code makes up stand where they are put.  So whether a file can be read back
depends only on the path of the runtime library and on where the declarations of the file use it:
`Group.takes` says where, and `parses_fileOf` that nothing else counts.
-/

namespace WireContract.Rust

/-! ## Names -/

namespace Ident

lemma isFree_iff {i : Ident} : i.isFree = true ↔ i.text ∉ reservedWords := by
  simp [isFree]

@[simp] lemma isFree_mk_text (i : Ident) : (Ident.mk i.text).isFree = i.isFree := rfl

@[simp] lemma isFree_ofName (name : String) : (ofName name).isFree = true := by
  have hescaped : ∀ w ∈ unescapable, w ++ "_" ∉ reservedWords := by decide
  have hmark : reservedWords.all (fun w => !w.toList.contains '#') = true := by decide
  have hknown : ∀ w ∈ reservedWords, w ∈ unescapable ∨ w ∈ keywords := by decide
  rw [isFree_iff, ofName, rawIfKeyword]
  split_ifs with hunescapable hkeyword
  · exact hescaped name (by simpa using hunescapable)
  · intro hmem
    have hnone := List.all_eq_true.1 hmark _ hmem
    simp at hnone
  · intro hmem
    rcases hknown name hmem with h | h
    · exact hunescapable (by simpa using h)
    · exact hkeyword (by simpa [isKeyword] using h)

@[simp] lemma isFree_field (name : String) : (field name).isFree = true :=
  isFree_ofName (Text.snake name)

@[simp] lemma isFree_companion (name suffix : String) : (companion name suffix).isFree = true :=
  isFree_ofName (name ++ suffix)

lemma isFree_variant (name : String) : (variant name).isFree = true := by
  unfold variant
  split
  · decide
  · exact isFree_ofName name

@[simp] lemma isFree_enumVariant (value : String) : (enumVariant value).isFree = true :=
  isFree_variant _

@[simp] lemma isFree_memberVariant (tag : String) : (memberVariant tag).isFree = true :=
  isFree_variant _

@[simp] lemma isFree_visitMethod (tag : String) : (visitMethod tag).isFree = true := by
  have hstart : ∀ w ∈ reservedWords, ¬ "visit_".toList <+: w.toList := by decide
  unfold visitMethod
  dsimp only
  split
  · decide
  · refine isFree_iff.2 fun hmem => hstart _ hmem ?_
    rw [String.toList_append]
    exact List.prefix_append _ _

end Ident

/-! ## Paths -/

namespace Path

/-- Free segments at the end of a path do not matter. -/
lemma stands_append {p : Path} {is : List Ident} (his : ∀ i ∈ is, i.isFree = true)
    (place : Place) :
    ({ p with segments := p.segments ++ is } : Path).stands place = p.stands place := by
  have hadmits (allowed : List String) :
      ({ p with segments := p.segments ++ is } : Path).admits allowed = p.admits allowed := by
    simp +contextual [admits, his]
  have htry : ({ p with segments := p.segments ++ is } : Path).startsWithTry =
      p.startsWithTry := by
    cases hp : p.segments with
    | cons i rest => simp [startsWithTry, hp]
    | nil =>
      cases is with
      | nil => simp [startsWithTry, hp]
      | cons i rest =>
        have hne : i ≠ ⟨"try"⟩ := by
          rintro rfl
          exact absurd (his _ List.mem_cons_self) (by decide)
        simp [startsWithTry, hp, hne]
  cases place <;> simp only [stands, hadmits, htry] <;> rfl

@[simp] lemma stands_push {p : Path} {i : Ident} (hi : i.isFree = true) (place : Place) :
    (p.push i).stands place = p.stands place :=
  stands_append (by simpa using hi) place

@[simp] lemma stands_join {p : Path} {words : List String}
    (hwords : ∀ w ∈ words, (Ident.mk w).isFree = true) (place : Place) :
    (p.join words).stands place = p.stands place :=
  stands_append (by simpa using hwords) place

/-- Where a value can start, an argument can. -/
lemma stands_argument_of_value {p : Path} (h : p.stands .value = true) :
    p.stands .argument = true := by
  simp only [stands, Bool.and_eq_true] at h ⊢
  refine ⟨h.1, ?_⟩
  have h := h.2
  split at h <;> simp_all

/-- A path of free segments stands everywhere, also if it goes up first. -/
lemma stands_of_free {absolute : Bool} {is : List Ident}
    (his : ∀ i ∈ is, i.isFree = true ∨ i = ⟨"super"⟩) (place : Place) :
    (Path.mk absolute is []).stands place = true := by
  have hadmits {allowed : List String} (hsuper : "super" ∈ allowed) :
      (Path.mk absolute is []).admits allowed = true := by
    simp only [admits, List.all_eq_true, Bool.or_eq_true]
    intro i hi
    rcases his i hi with hfree | rfl
    · exact .inl hfree
    · exact .inr (by simpa using hsuper)
  have htry : (Path.mk absolute is []).startsWithTry = false := by
    have hhead : is.head? ≠ some ⟨"try"⟩ := by
      intro hhead
      have hmem := his _ (List.mem_of_head? hhead)
      exact absurd hmem (by decide)
    simp [startsWithTry, hhead]
  cases place <;> simp [stands, openGenerics, htry] <;> exact hadmits (by decide)

@[simp] lemma stands_ofIdent {i : Ident} (hi : i.isFree = true) (place : Place) :
    (ofIdent i).stands place = true :=
  stands_of_free (by simp [hi]) place

end Path

/-! ## Forms

The forms that syntax is made of, nested ones by the forms in them. -/

namespace Ty

@[simp] lemma parses_named {p : Path} {lifetimes : List String} {args : List Ty} :
    (named p lifetimes args).parses = true ↔
      p.stands .type = true ∧ ∀ t ∈ args, t.parses = true := by
  have hall : parsesAll args = args.all parses := by
    induction args with
    | nil => rfl
    | cons t ts ih => rw [parsesAll, ih, List.all_cons]
  rw [parses, hall, Bool.and_eq_true, List.all_eq_true]

@[simp] lemma parses_reference {lifetime : Option String} {mutable : Bool} {t : Ty} :
    (reference lifetime mutable t).parses = t.parses := by
  rw [parses]

@[simp] lemma parses_slice {t : Ty} : (slice t).parses = t.parses := by rw [parses]

@[simp] lemma parses_dyn {t : Ty} : (dyn t).parses = t.parses := by rw [parses]

@[simp] lemma parses_some {t : Ty} : (some t).parses = t.parses := by rw [parses]

@[simp] lemma parses_ofPath {p : Path} : (ofPath p).parses = p.stands .type := by
  rw [Bool.eq_iff_iff]
  simp [ofPath]

end Ty

@[simp] lemma Pat.parsesAll_iff {ps : List Pat} :
    Pat.parsesAll ps = true ↔ ∀ p ∈ ps, p.parses = true := by
  induction ps with
  | nil => simp [parsesAll]
  | cons p ps ih => simp [parsesAll, ih]

@[simp] lemma Expr.parsesAll_iff {es : List Expr} :
    Expr.parsesAll es = true ↔ ∀ e ∈ es, e.parses .argument = true := by
  induction es with
  | nil => simp [parsesAll]
  | cons e es ih => simp [parsesAll, ih]

@[simp] lemma Item.parsesAll_iff {is : List Item} :
    Item.parsesAll is = true ↔ ∀ i ∈ is, i.parses = true := by
  induction is with
  | nil => simp [parsesAll]
  | cons i is ih => simp [parsesAll, ih]

lemma Item.parses_impl {lifetimes : List String} {ofTrait : Option Ty} {self : Ty}
    {members : List ImplMember} : (impl lifetimes ofTrait self members).parses = true ↔
      ofTrait.all Ty.parses = true ∧ self.parses = true ∧ ∀ m ∈ members, m.parses = true := by
  simp only [parses, Bool.and_eq_true, List.all_eq_true, and_assoc]

attribute [simp] Pat.parses Expr.parses Arm.parses Tail.parses Body.parses RecordField.parses
  Variant.parses TypeParam.parses Signature.parses ImplMember.parses TraitMember.parses
  Fields.parses Import.parses Item.parses

end WireContract.Rust

namespace WireContract.Schema

/-- Whether values of the reference are stored in a type of the runtime library. -/
def TypeRef.usesLibrary : TypeRef → Bool
  | .primitive p => p == .datetime || p == .uuid
  | .binary => true
  | .optional t | .list t | .set t => t.usesLibrary
  | .map k v => k.usesLibrary || v.usesLibrary
  | .declared _ => false
  | .external _ fallback => fallback.usesLibrary

/-- Whether a slot of the declaration is stored in a type of the runtime library. -/
def Declaration.usesLibrary (d : Declaration) : Bool := d.references.any (·.2.usesLibrary)

end WireContract.Schema

namespace WireContract.Emit

open Rust Schema

/-! ## Slots -/

lemma Imports.stands_fromRoot (imports : Imports) (module : String) (place : Place) :
    (imports.fromRoot module).stands place = true := by
  refine Path.stands_of_free (fun i hi => ?_) place
  rcases List.mem_append.1 hi with hi | hi
  · exact .inr (List.eq_of_mem_replicate hi)
  · obtain ⟨s, -, rfl⟩ := List.mem_map.1 hi
    exact .inl (Ident.isFree_ofName s)

@[simp] lemma Imports.stands_pathTo (imports : Imports) (q : QualifiedName) (place : Place) :
    (imports.pathTo q).stands place = true := by
  unfold pathTo
  split
  · exact Path.stands_of_free (by simp) place
  · split
    · exact Path.stands_of_free (by simp) place
    · rw [Path.stands_push (Ident.isFree_ofName _)]
      exact imports.stands_fromRoot _ place

lemma parses_primitiveType (runtime : Path) (p : Primitive) :
    (Stored.primitiveType runtime p).parses = true ↔
      ((TypeRef.primitive p).usesLibrary = true → runtime.stands .type = true) := by
  cases p <;> simp +decide [Stored.primitiveType, Ty.ofWord]

lemma parses_type_stored (imports : Imports) (runtime : Path) (r : TypeRef) (boxed : Bool) :
    ((r.stored boxed).type imports runtime).parses = true ↔
      (r.usesLibrary = true → runtime.stands .type = true) := by
  induction r generalizing boxed with
  | primitive p => exact parses_primitiveType runtime p
  | binary => simp +decide [TypeRef.stored, Stored.type]
  | optional t ih | list t ih | set t ih =>
    simp +decide [TypeRef.stored, Stored.type, TypeRef.usesLibrary, Ty.apply, ih]
  | map k v ihk ihv =>
    rw [TypeRef.stored, Stored.type, Ty.parses_named, List.forall_mem_cons,
      List.forall_mem_singleton, ihk, ihv]
    simp +decide [TypeRef.usesLibrary, or_imp]
  | declared q =>
    cases boxed <;> simp +decide [TypeRef.stored, Stored.type, TypeRef.usesLibrary, Ty.apply]
  | external q t ih => simpa [TypeRef.stored, TypeRef.usesLibrary] using ih boxed

lemma parses_type_viewed (imports : Imports) (runtime : Path) (r : TypeRef) (boxed : Bool) :
    ((r.viewed boxed).type imports runtime).parses = true ↔
      (r.usesLibrary = true → runtime.stands .type = true) := by
  induction r with
  | declared q => simp [TypeRef.viewed, Stored.type, TypeRef.usesLibrary]
  | external q t ih => simpa [TypeRef.viewed, TypeRef.usesLibrary] using ih
  | _ => exact parses_type_stored imports runtime _ boxed

@[simp] lemma Scope.parses_stored (scope : Scope) (r : TypeRef) (boxed : Bool) :
    (scope.stored r boxed).parses = true ↔
      (r.usesLibrary = true → scope.runtime.stands .type = true) :=
  parses_type_stored scope.imports scope.runtime r boxed

@[simp] lemma Scope.parses_viewed (scope : Scope) (r : TypeRef) (boxed : Bool) :
    (scope.viewed r boxed).parses = true ↔
      (r.usesLibrary = true → scope.runtime.stands .type = true) :=
  parses_type_viewed scope.imports scope.runtime r boxed

/-! ## Items -/

@[simp] lemma stands_selfItem {i : Ident} (hi : i.isFree = true) {place : Place}
    (hplace : place ≠ .import) : (selfItem i).stands place = true := by
  have hadmits : (selfItem i).admits typeWords = true := by
    simp +decide [selfItem, Path.admits, hi]
  cases place <;> simp_all [Path.stands, Path.openGenerics] <;>
    simp +decide [selfItem, Path.startsWithTry]

@[simp] lemma stands_unknownItem {place : Place} (hplace : place ≠ .import) :
    unknownItem.stands place = true :=
  stands_selfItem (by decide) hplace

section Forms

variable {self : Ty} {b : Body} {e : Expr} {t : Ty}

@[simp] lemma parses_ownType (name : String) : (ownType name).parses = true := by simp [ownType]

@[simp] lemma parses_ofWord {w : String} (hw : (Ident.mk w).isFree = true) :
    (Ty.ofWord w).parses = true := by
  rw [Ty.ofWord, Ty.parses_ofPath]
  exact Path.stands_ofIdent hw .type

@[simp] lemma parses_apply {w : String} (hw : (Ident.mk w).isFree = true) {args : List Ty} :
    (Ty.apply w args).parses = true ↔ ∀ t ∈ args, t.parses = true := by
  have hpath : (Path.ofWords [w]).stands .type = true := Path.stands_ofIdent hw .type
  rw [Ty.apply, Ty.parses_named, and_iff_right hpath]

@[simp] lemma parses_ref : t.ref.parses = t.parses := Ty.parses_reference

@[simp] lemma parses_refMut : t.refMut.parses = t.parses := Ty.parses_reference

@[simp] lemma parses_refStatic : t.refStatic.parses = t.parses := Ty.parses_reference

@[simp] lemma parses_serializeImpl :
    (serializeImpl self b).parses = true ↔ self.parses = true ∧ b.parses = true := by
  simp +decide [serializeImpl, Ty.apply, Ty.ofWord]

@[simp] lemma parses_deserializeImpl :
    (deserializeImpl self b).parses = true ↔ self.parses = true ∧ b.parses = true := by
  simp +decide [deserializeImpl, Ty.apply, Ty.ofWord, selfType]

@[simp] lemma parses_decodeWhole {place : Place} :
    (decodeWhole t).parses place = true ↔ t.parses = true := by
  simp +decide [decodeWhole, Expr.var]

@[simp] lemma parses_displayImpl :
    (displayImpl self e).parses = true ↔ self.parses = true ∧ e.parses .value = true := by
  simp +decide [displayImpl, signature, Body.ofExpr, Ty.refMut]

end Forms

lemma parses_enumItems (scope : Scope) (e : Enum) :
    (∀ i ∈ enumItems scope e, i.parses = true) ↔
      scope.runtime.stands .type = true ∧ scope.runtime.stands .argument = true := by
  simp only [enumItems, enumVariants, readArms, writeArms, wireVariants, Scope.lib, Scope.libType,
    getter, signature, Ty.apply, Ty.ofWord, Ty.ref, strType, selfType, Body.ofExpr, Expr.var]
  simp +decide

lemma parses_aliasItems (scope : Scope) (a : Alias) :
    (∀ i ∈ aliasItems scope a, i.parses = true) ↔
      (a.target.usesLibrary = true → scope.runtime.stands .type = true) := by
  simp only [aliasItems, targetType, getter, signature, selfType, Ty.ofWord, Ty.ref, Ty.refMut,
    Body.ofExpr, Expr.var]
  simp +decide

lemma parses_objectItems (scope : Scope) (o : Object) :
    (∀ i ∈ objectItems scope o, i.parses = true) ↔
      ∀ f ∈ o.fields, f.type.usesLibrary = true → scope.runtime.stands .type = true := by
  simp [objectItems, objectFields, fieldOf]

lemma parses_visitorItems (scope : Scope) (u : Union) :
    (∀ i ∈ visitorItems scope u, i.parses = true) ↔
      ∀ m ∈ u.members, m.type.usesLibrary = true → scope.runtime.stands .type = true := by
  simp only [visitorItems, visitMethods, visitArms, memberCases, memberPat, unknownPat, unknownTag,
    signature, strType, Ty.ofWord, Ty.ref, Ty.refMut, Expr.var]
  simp +decide

lemma parses_unionItems (scope : Scope) (u : Union) :
    (∀ i ∈ unionItems scope u, i.parses = true) ↔
      scope.runtime.stands .type = true ∧ (∀ m ∈ u.members, scope.runtime.stands .value = true) ∧
        scope.runtime.stands .argument = true := by
  simp only [unionItems, unionVariants, visitMethods, tagArms, visitArms, encodeArms, decodeArms,
    memberCases, memberPat, unknownPat, unknownTag, Scope.lib, Scope.libType, getter, signature,
    strType, Ty.ofWord, Ty.ref, Ty.refMut, Body.ofExpr, Expr.var]
  cases htype : scope.runtime.stands .type <;> simp +decide [htype]

section Holder

variable (scope : Scope)

lemma parses_holderConstants (e : ErrorDecl) :
    (∀ m ∈ holderConstants scope e, m.parses = true) ↔
      scope.runtime.stands .type = true ∧ scope.runtime.stands .value = true := by
  simp +decide [holderConstants, namesType, strType, Ty.ofWord, Scope.lib, Scope.libType]

lemma parses_holderFunctions (e : ErrorDecl) :
    (∀ m ∈ holderFunctions scope e, m.parses = true) ↔
      scope.runtime.stands .type = true ∧ scope.runtime.stands .value = true := by
  simp only [holderFunctions, objectType, instanceType, getter, signature, strType, selfType,
    Ty.ofWord, Body.ofExpr, Expr.var, Scope.lib, Scope.libType]
  cases htype : scope.runtime.stands .type <;> simp +decide [htype]

lemma parses_holderInterface {self : Ty} (hself : self.parses = true) :
    (holderInterface scope self).parses = true ↔ scope.runtime.stands .type = true := by
  simp only [holderInterface, objectType, namesType, instanceType, signature, strType, Ty.ofWord,
    Body.ofExpr, Expr.var, Scope.libType, Scope.lib]
  simp +decide [hself]

lemma parses_holderCodec {self : Ty} (hself : self.parses = true) :
    (∀ i ∈ holderCodec scope self, i.parses = true) ↔
      scope.runtime.stands .argument = true ∧ scope.runtime.stands .type = true := by
  simp +decide [holderCodec, Body.ofExpr, Expr.var, Scope.lib, hself]

lemma parses_serverItems {self : Ty} (hself : self.parses = true) :
    (∀ i ∈ serverItems scope self, i.parses = true) ↔ scope.runtime.stands .type = true := by
  simp +decide [serverItems, getter, signature, selfType, Ty.ofWord, Body.ofExpr, Expr.var,
    Scope.libType, Scope.lib, hself]

lemma parses_parametersItem (e : ErrorDecl) (htype : scope.runtime.stands .type = true) :
    (parametersItem scope e).parses = true := by
  simp [parametersItem, paramFields, fieldOf, htype]

lemma parses_errorItems (server : Bool) (e : ErrorDecl) :
    (∀ i ∈ errorItems scope server e, i.parses = true) ↔
      scope.runtime.stands .type = true ∧ scope.runtime.stands .value = true := by
  have hself := parses_ownType e.name.name
  have hmembers : (∀ m ∈ holderConstants scope e ++ holderFunctions scope e, m.parses = true) ↔
      scope.runtime.stands .type = true ∧ scope.runtime.stands .value = true := by
    rw [List.forall_mem_append, parses_holderConstants, parses_holderFunctions, and_self]
  constructor
  · -- The constants and functions of the holder use the library as a type and as a value.
    intro h
    have himpl := h _ (List.mem_append_left _ (List.mem_append_left _
      (List.mem_cons_of_mem _ (List.mem_cons_of_mem _ List.mem_cons_self))))
    exact hmembers.1 (Item.parses_impl.1 himpl).2.2
  · rintro ⟨htype, hvalue⟩
    have hargument := Path.stands_argument_of_value hvalue
    rw [errorItems, List.forall_mem_append, List.forall_mem_append]
    refine ⟨⟨?_, (parses_holderCodec scope hself).2 ⟨hargument, htype⟩⟩, ?_⟩
    · simp only [List.forall_mem_cons]
      refine ⟨parses_parametersItem scope e htype, ?_, ?_,
        (parses_holderInterface scope hself).2 htype, ?_, ?_, List.forall_mem_nil _⟩
      · simp +decide [instanceType, Scope.lib, Scope.libType, htype]
      · exact Item.parses_impl.2 ⟨rfl, hself, hmembers.2 ⟨htype, hvalue⟩⟩
      · simp +decide [Scope.lib, hvalue]
      · simp +decide
    · split
      · exact (parses_serverItems scope hself).2 htype
      · exact List.forall_mem_nil _

end Holder

/-! ## Files -/

/-- Whether the file of a group can hold a declaration when the runtime library is at a path.  Where
only slots use the library, they may not use it at all. -/
def Group.takes (g : Group) (runtime : Path) (d : Declaration) : Bool :=
  let slots := !d.usesLibrary || runtime.stands .type
  match g, d with
  | visitors, .union _ => slots
  | _, .alias _ => slots
  | _, .enum _ => runtime.stands .type && runtime.stands .argument
  | _, .object _ => slots
  | _, .union u =>
    runtime.stands .type && (u.members.isEmpty || runtime.stands .value) &&
      runtime.stands .argument
  | _, .error _ => runtime.stands .type && runtime.stands .value

/-- Slots ask only that the types of the library can stand among types. -/
lemma slots_iff {d : Declaration} {isType : Bool} : (!d.usesLibrary || isType) = true ↔
    ∀ p ∈ d.references, p.2.usesLibrary = true → isType = true := by
  cases isType <;> simp [Declaration.usesLibrary]

/-- The items of a declaration can be read back exactly if the file can hold it. -/
lemma Group.parses_items (g : Group) (scope : Scope) (server : Bool) (d : Declaration) :
    (∀ i ∈ g.items scope server d, i.parses = true) ↔ g.takes scope.runtime d = true := by
  have hslots := @slots_iff d (scope.runtime.stands .type)
  cases d with
  | «alias» a =>
    cases g <;> refine (parses_aliasItems scope a).trans (Iff.trans ?_ hslots.symm) <;>
      simp [Declaration.references]
  | enum e => cases g <;> exact (parses_enumItems scope e).trans Bool.and_eq_true_iff.symm
  | object o =>
    cases g <;> refine (parses_objectItems scope o).trans (Iff.trans ?_ hslots.symm) <;>
      simp [Declaration.references]
  | union u =>
    have hmembers : (u.members.isEmpty || scope.runtime.stands .value) = true ↔
        ∀ m ∈ u.members, scope.runtime.stands .value = true := by
      cases scope.runtime.stands .value <;> simp [List.eq_nil_iff_forall_not_mem]
    cases g with
    | visitors =>
      refine (parses_visitorItems scope u).trans (Iff.trans ?_ hslots.symm)
      simp [Declaration.references]
    | _ =>
      refine (parses_unionItems scope u).trans (Iff.trans ?_ Bool.and_eq_true_iff.symm)
      rw [Bool.and_eq_true_iff, hmembers, and_assoc]
  | error e => cases g <;> exact (parses_errorItems scope server e).trans Bool.and_eq_true_iff.symm

@[simp] lemma Imports.parses_items (imports : Imports) : ∀ i ∈ imports.items, i.parses = true := by
  intro i hi
  obtain ⟨p, -, rfl⟩ := List.mem_map.1 hi
  dsimp only
  split <;> simp [imports.stands_fromRoot]

/-- A file can be read back exactly if it can hold its declarations. -/
theorem parses_fileOf (c : Contract) (runtime : Path) (server : Bool) (module : String) (g : Group)
    (ds : List Declaration) :
    (fileOf c runtime server module g ds).parses = true ↔
      ∀ d ∈ ds, g.takes runtime d = true := by
  have hitems := g.parses_items (scopeOf c runtime module ds) server
  rw [File.parses, Item.parsesAll_iff, fileOf, List.forall_mem_append,
    and_iff_right (Imports.parses_items _)]
  constructor
  · exact fun h d hd => (hitems d).1 fun i hi => h i (List.mem_flatMap_of_mem hd hi)
  · intro h i hi
    obtain ⟨d, hd, hi⟩ := List.mem_flatMap.1 hi
    exact (hitems d).2 (h d hd) i hi

/-- Where the path of the library can stand anywhere, no declaration is refused. -/
lemma Group.takes_of_isUnrestricted {runtime : Path} (h : runtime.isUnrestricted = true)
    (g : Group) (d : Declaration) : g.takes runtime d = true := by
  obtain ⟨htype, hvalue⟩ := Bool.and_eq_true_iff.1 h
  have hargument := Path.stands_argument_of_value hvalue
  cases g <;> cases d <;> simp [takes, htype, hvalue, hargument]

/-! ## Files that cannot be read back -/

/-- No file is left to report exactly if every file of a module can hold its declarations. -/
lemma unread?_eq_none_iff {c : Contract} {runtime : Path} {o : Options} :
    unread? c runtime o = none ↔
      ∀ m ∈ c.registry.modules, ∀ s ∈ moduleFiles c runtime o m, s.file.parses = true := by
  simp [unread?, List.findSome?_eq_none_iff, List.find?_eq_none]

/-- What is reported names a file of a module that cannot be read back. -/
lemma exists_of_unread?_eq_some {c : Contract} {runtime : Path} {o : Options} {context : String}
    (h : unread? c runtime o = some context) :
    ∃ m ∈ c.registry.modules, ∃ s ∈ moduleFiles c runtime o m,
      s.file.parses = false ∧ context = fileContext m s.group := by
  obtain ⟨m, hm, hfound⟩ := List.exists_of_findSome?_eq_some h
  obtain ⟨s, hs, rfl⟩ := Option.map_eq_some_iff.1 hfound
  exact ⟨m, hm, s, List.mem_of_find?_eq_some hs, by simpa using List.find?_some hs, rfl⟩

end WireContract.Emit
