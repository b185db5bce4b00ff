import WireContract.Proofs.IdentifierSpelling
import WireContract.Proofs.PathResolution
import WireContract.Proofs.TokenWords

/-!
# The words of emitted files

Generated items mix fixed words with identifiers that are built from a contract.  The identifiers of
a well-formed declaration are names (`Declaration.WellFormed.isName_of_mem_identifiers`), and so are
the aliases of imports and the segments of modules.  With them every word of an item is an
identifier, for each kind of declaration; hence every word of a file, and of the tree of an accepted
document (`spelled_files`).

The forms that generated code repeats have a lemma each, like the syntax they are made of, so that
the items are taken apart by simplification.  Only what is built from the contract is left, and each
lemma about items provides it.
-/

namespace WireContract.Schema.Declaration

open Rust

/-! ## Identifiers of declarations -/

/-- The identifiers of the members of a declaration.  A member of a union has a variant and a
visitor method; a parameter of an error is a field and an argument of the same name. -/
def memberIdents : Declaration → List Ident
  | .alias _ => []
  | .enum e => e.values.map fun v => .enumVariant v.value
  | .object o => o.fields.map fun f => .field f.name
  | .union u => u.members.map (fun m => .memberVariant m.tag) ++
      u.members.map fun m => .visitMethod m.tag
  | .error e => e.params.map fun p => .field p.name

/-- The identifiers that are built from a declaration: those of the segments of its module, of its
type and the types beside it, and of its members. -/
def identifiers (d : Declaration) : List Ident :=
  d.name.segments.map .ofName ++ d.generatedNames.map (fun q => .ofName q.name) ++ d.memberIdents

namespace WellFormed

variable {d : Declaration} (hd : d.WellFormed)

include hd

lemma isName_segment {s : String} (hs : s ∈ d.name.segments) : (Ident.ofName s).IsName :=
  Ident.isName_ofName (hd.name.segments s hs).1.plainIdentifier

lemma isName_type : (Ident.ofName d.name.name).IsName :=
  Ident.isName_ofName hd.name.pascalCase.plainIdentifier

lemma isName_companion {q : QualifiedName} (hq : q ∈ d.companions) :
    (Ident.ofName q.name).IsName := by
  have hplain : ∀ s ∈ companionSuffixes, s.toList.all isPlainChar = true := by decide
  obtain ⟨s, hs, rfl⟩ := exists_suffix hq
  exact Ident.isName_companion hd.name.pascalCase (hplain s hs)

lemma isName_member {i : Ident} (hi : i ∈ d.memberIdents) : i.IsName := by
  have hmembers := hd.members
  cases d with
  | «alias» a => exact (List.not_mem_nil hi).elim
  | enum e =>
    obtain ⟨v, hv, rfl⟩ := List.mem_map.1 hi
    exact Ident.isName_enumVariant (hmembers.2.2 v hv)
  | object o =>
    obtain ⟨f, hf, rfl⟩ := List.mem_map.1 hi
    exact Ident.isName_field (hmembers.identifiers _ (List.mem_map_of_mem hf))
  | union u =>
    rcases List.mem_append.1 hi with hi | hi <;> obtain ⟨m, hm, rfl⟩ := List.mem_map.1 hi
    · exact Ident.isName_memberVariant (hmembers.2.1.identifiers _ (List.mem_map_of_mem hm))
    · exact Ident.isName_visitMethod (hmembers.2.1.identifiers _ (List.mem_map_of_mem hm))
  | error e =>
    obtain ⟨p, hp, rfl⟩ := List.mem_map.1 hi
    exact Ident.isName_field (hmembers.2.identifiers _ (List.mem_map_of_mem hp))

lemma isName_of_mem_identifiers {i : Ident} (hi : i ∈ d.identifiers) : i.IsName := by
  rw [identifiers, List.mem_append, List.mem_append] at hi
  rcases hi with (hi | hi) | hi
  · obtain ⟨s, hs, rfl⟩ := List.mem_map.1 hi
    exact hd.isName_segment hs
  · obtain ⟨q, hq, rfl⟩ := List.mem_map.1 hi
    rcases List.mem_cons.1 hq with rfl | hq
    · exact hd.isName_type
    · exact hd.isName_companion hq
  · exact hd.isName_member hi

end WellFormed

end WireContract.Schema.Declaration

namespace WireContract.Emit

open Rust Schema

/-! ## Attributes -/

@[simp] lemma allSpelled_docLines (docs : Option String) : Attr.AllSpelled (docLines docs) := by
  intro a ha
  cases docs with
  | none => exact (List.not_mem_nil ha).elim
  | some docs =>
    obtain ⟨line, -, rfl⟩ := List.mem_map.1 ha
    exact Attr.spelled_doc

@[simp] lemma allSpelled_notes (lines : List String) : Attr.AllSpelled (notes lines) := by
  intro a ha
  obtain ⟨line, -, rfl⟩ := List.mem_map.1 ha
  exact Attr.spelled_doc

@[simp] lemma spelled_deriveAttr (orderable default serde : Bool) :
    (deriveAttr orderable default serde).Spelled := by
  cases orderable <;> cases default <;> cases serde <;>
    simp +decide [deriveAttr, derivedTraits]

@[simp] lemma spelled_fieldAttr (scope : Scope) (key : String) (r : TypeRef) :
    (fieldAttr scope key r).Spelled := by
  unfold fieldAttr
  cases scope.contract.registry.fieldRule r <;> simp +decide

@[simp] lemma allSpelled_gate (g : Group) : Attr.AllSpelled g.gate := by
  cases g <;> simp +decide [Group.gate]

/-! ## Types of slots -/

/-- The names that a scope brings into generated code are identifiers. -/
structure Scope.Spelled (scope : Scope) : Prop where
  runtime : scope.runtime.Spelled
  aliases : ∀ p ∈ scope.imports.aliases, PlainIdentifier p.2

lemma isWord_of_isName {i : Ident} (hi : i.IsName) : isWord i.text = true :=
  isWord_of_isSpelling hi.spelling

lemma isWord_ofName {s : String} (hs : PlainIdentifier s) : isWord (Ident.ofName s).text = true :=
  isWord_of_isName (Ident.isName_ofName hs)

lemma isWord_segment {q : QualifiedName} (hq : q.WellFormed) :
    ∀ i ∈ (Text.split '.' q.module).map Ident.ofName, isWord i.text = true := by
  intro i hi
  obtain ⟨s, hs, rfl⟩ := List.mem_map.1 hi
  exact isWord_ofName (hq.segments s hs).1.plainIdentifier

lemma Imports.spelled_fromRoot (imports : Imports) {module : String}
    (hmodule : ∀ i ∈ (Text.split '.' module).map Ident.ofName, isWord i.text = true) :
    (imports.fromRoot module).Spelled := by
  have hsuper : isWord "super" = true := by decide
  refine ⟨fun i hi => ?_, List.forall_mem_nil _⟩
  rcases List.mem_append.1 hi with hi | hi
  · rw [List.eq_of_mem_replicate hi]
    exact hsuper
  · exact hmodule i hi

lemma Imports.spelled_pathTo {imports : Imports}
    (himports : ∀ p ∈ imports.aliases, PlainIdentifier p.2) {q : QualifiedName}
    (hq : q.WellFormed) : (imports.pathTo q).Spelled := by
  have hname : isWord (Ident.ofName q.name).text = true :=
    isWord_ofName hq.pascalCase.plainIdentifier
  unfold Imports.pathTo
  split
  · exact ⟨List.forall_mem_cons.2 ⟨by decide, by simpa using hname⟩, List.forall_mem_nil _⟩
  · split
    · rename_i a halias
      obtain ⟨p, hp, rfl⟩ := Option.map_eq_some_iff.1 halias
      have halias := isWord_ofName (himports p (List.mem_of_find?_eq_some hp))
      exact ⟨List.forall_mem_cons.2 ⟨halias, by simpa using hname⟩, List.forall_mem_nil _⟩
    · exact (imports.spelled_fromRoot (isWord_segment hq)).push hname

section Slots

variable {scope : Scope} (hscope : scope.Spelled)

include hscope

lemma Scope.Spelled.type {form : Stored} (hform : ∀ q ∈ form.mentions, q.WellFormed) :
    (form.type scope.imports scope.runtime).tokens.Spelled := by
  have hruntime := hscope.runtime
  induction form with
  | primitive p =>
    cases p <;> simp +decide [Stored.type, Stored.primitiveType, Ty.ofWord, Ty.ofPath, hruntime]
  | binary => simp +decide [Stored.type, Ty.ofPath, hruntime]
  | option t ih | vec t ih | set t ih | boxed t ih =>
    simp +decide [Stored.type, Ty.apply, ih hform]
  | map k v ihk ihv =>
    rw [Stored.mentions, List.forall_mem_append] at hform
    simp +decide [Stored.type, ihk hform.1, ihv hform.2]
  | named q =>
    have hpath := Imports.spelled_pathTo hscope.aliases (hform q List.mem_cons_self)
    simp [Stored.type, Ty.ofPath, hpath]

lemma Scope.Spelled.references {d : Declaration} (hmentions : ∀ q ∈ d.mentions, q.WellFormed)
    {member : String} {r : TypeRef} (hr : (member, r) ∈ d.references) (boxed : Bool) :
    (scope.stored r boxed).tokens.Spelled ∧ (scope.viewed r boxed).tokens.Spelled := by
  have hmember : ∀ q ∈ r.mentions, q.WellFormed :=
    fun q hq => hmentions q (List.mem_flatMap_of_mem hr hq)
  exact ⟨hscope.type (by rwa [mentions_stored]), hscope.type (by rwa [mentions_viewed])⟩

end Slots

/-! ## Items of declarations -/

@[simp] lemma spelled_ofPath {p : Path} : (Ty.ofPath p).tokens.Spelled ↔ p.tokens.Spelled := by
  simp [Ty.ofPath]

@[simp] lemma spelled_ofWord {w : String} : (Ty.ofWord w).tokens.Spelled ↔ isWord w = true := by
  simp [Ty.ofWord]

@[simp] lemma spelled_apply {w : String} {args : List Ty} :
    (Ty.apply w args).tokens.Spelled ↔ isWord w = true ∧ ∀ t ∈ args, t.tokens.Spelled := by
  simp [Ty.apply]

@[simp] lemma spelled_ref {t : Ty} : t.ref.tokens.Spelled ↔ t.tokens.Spelled := by
  simp [Ty.ref]

@[simp] lemma spelled_refMut {t : Ty} : t.refMut.tokens.Spelled ↔ t.tokens.Spelled := by
  simp [Ty.refMut]

@[simp] lemma spelled_refStatic {t : Ty} : t.refStatic.tokens.Spelled ↔ t.tokens.Spelled := by
  simp +decide [Ty.refStatic]

@[simp] lemma spelled_var {name : String} :
    (Expr.var name).tokens.Spelled ↔ isWord name = true := by
  simp [Expr.var]

@[simp] lemma spelled_selfItem {i : Ident} :
    (selfItem i).tokens.Spelled ↔ isWord i.text = true := by
  simp +decide [selfItem, Path.spelled_tokens_iff]

@[simp] lemma spelled_unknownItem : unknownItem.tokens.Spelled := by
  simp +decide [unknownItem]

@[simp] lemma spelled_strType : strType.tokens.Spelled := by simp +decide [strType]

@[simp] lemma spelled_selfType : selfType.tokens.Spelled := by simp +decide [selfType]

@[simp] lemma spelled_ownType {name : String} :
    (ownType name).tokens.Spelled ↔ isWord (Ident.ofName name).text = true := by
  simp [ownType]

@[simp high] lemma spelled_signature {name : String} {receiver : Option Receiver}
    {args : List (String × Ty)} {result : Option Ty} :
    (signature name receiver args result).tokens.Spelled ↔ isWord name = true ∧
      (∀ a ∈ args, isWord a.1 = true ∧ a.2.tokens.Spelled) ∧ ∀ t ∈ result, t.tokens.Spelled := by
  rw [Signature.spelled_tokens, signature, List.forall_mem_map]
  simp

@[simp] lemma spelled_getter {docs : List String} {s : Signature} {b : Body} :
    (getter docs s b).tokens.Spelled ↔ s.tokens.Spelled ∧ b.tokens.Spelled := by
  simp [getter]

@[simp high] lemma spelled_ofExpr {e : Expr} :
    (Body.ofExpr e).tokens.Spelled ↔ e.tokens.Spelled := by
  simp [Body.ofExpr]

@[simp] lemma spelled_serializeImpl {self : Ty} {b : Body} :
    (serializeImpl self b).tokens.Spelled ↔ self.tokens.Spelled ∧ b.tokens.Spelled := by
  simp +decide [serializeImpl]

@[simp] lemma spelled_deserializeImpl {self : Ty} {b : Body} :
    (deserializeImpl self b).tokens.Spelled ↔ self.tokens.Spelled ∧ b.tokens.Spelled := by
  simp +decide [deserializeImpl]

@[simp] lemma spelled_decodeWhole {t : Ty} :
    (decodeWhole t).tokens.Spelled ↔ t.tokens.Spelled := by
  simp +decide [decodeWhole]

@[simp] lemma spelled_displayImpl {self : Ty} {e : Expr} :
    (displayImpl self e).tokens.Spelled ↔ self.tokens.Spelled ∧ e.tokens.Spelled := by
  simp +decide [displayImpl]

section Items

variable {scope : Scope} (hscope : scope.Spelled)

include hscope

lemma spelled_aliasItems {a : Alias} (hd : (Declaration.alias a).WellFormed)
    (hmentions : ∀ q ∈ (Declaration.alias a).mentions, q.WellFormed) :
    ∀ item ∈ aliasItems scope a, item.tokens.Spelled := by
  have hself : isWord (Ident.ofName a.name.name).text = true := isWord_of_isName hd.isName_type
  have htarget : (targetType scope a).tokens.Spelled :=
    (hscope.references hmentions List.mem_cons_self _).1
  simp +decide [aliasItems, hself, htarget]

lemma spelled_enumItems {e : Enum} (hd : (Declaration.enum e).WellFormed) :
    ∀ item ∈ enumItems scope e, item.tokens.Spelled := by
  have hruntime := hscope.runtime
  have hself : isWord (Ident.ofName e.name.name).text = true := isWord_of_isName hd.isName_type
  have hvariants : ∀ v ∈ e.values, isWord (Ident.enumVariant v.value).text = true :=
    fun v hv => isWord_of_isName (hd.isName_member (List.mem_map_of_mem hv))
  simp only [enumItems, enumVariants, readArms, writeArms, wireVariants, Scope.lib, Scope.libType]
  simp +decide +contextual [hself, hruntime, hvariants, or_imp]

lemma spelled_objectItems {o : Object} (hd : (Declaration.object o).WellFormed)
    (hmentions : ∀ q ∈ (Declaration.object o).mentions, q.WellFormed) :
    ∀ item ∈ objectItems scope o, item.tokens.Spelled := by
  have hself : isWord (Ident.ofName o.name.name).text = true := isWord_of_isName hd.isName_type
  have hnames : ∀ f ∈ o.fields, isWord (Ident.field f.name).text = true :=
    fun f hf => isWord_of_isName (hd.isName_member (List.mem_map_of_mem hf))
  have hslots : ∀ f ∈ o.fields, ∀ boxed, (scope.stored f.type boxed).tokens.Spelled :=
    fun f hf boxed => (hscope.references hmentions (List.mem_map_of_mem hf) boxed).1
  simp +decide +contextual [objectItems, objectFields, fieldOf, hself, hnames, hslots]

section Members

variable {u : Union} (hd : (Declaration.union u).WellFormed)
  (hmentions : ∀ q ∈ (Declaration.union u).mentions, q.WellFormed)

include hd

omit hscope in
lemma isWord_memberVariant :
    ∀ m ∈ u.members, isWord (Ident.memberVariant m.tag).text = true :=
  fun _ hm => isWord_of_isName
    (hd.isName_member (List.mem_append_left _ (List.mem_map_of_mem hm)))

omit hscope in
lemma isWord_visitMethod : ∀ m ∈ u.members, isWord (Ident.visitMethod m.tag).text = true :=
  fun _ hm => isWord_of_isName
    (hd.isName_member (List.mem_append_right _ (List.mem_map_of_mem hm)))

include hmentions

lemma spelled_unionItems : ∀ item ∈ unionItems scope u, item.tokens.Spelled := by
  have hruntime := hscope.runtime
  have hself : isWord (Ident.ofName u.name.name).text = true := isWord_of_isName hd.isName_type
  have hvisitor : isWord (Ident.companion u.name.name visitorSuffix).text = true :=
    isWord_of_isName (Ident.isName_companion hd.name.pascalCase (by decide))
  have hslots : ∀ m ∈ u.members, ∀ boxed, (scope.stored m.type boxed).tokens.Spelled ∧
      (scope.viewed m.type boxed).tokens.Spelled :=
    fun m hm => hscope.references hmentions (List.mem_map_of_mem hm)
  simp only [unionItems, unionVariants, tagArms, visitArms, encodeArms, decodeArms, visitMethods,
    memberCases, memberPat, unknownPat, unknownTag, Scope.lib, Scope.libType]
  simp +decide +contextual [hruntime, hself, hvisitor, isWord_memberVariant hd,
    isWord_visitMethod hd, hslots, or_imp]

lemma spelled_visitorItems : ∀ item ∈ visitorItems scope u, item.tokens.Spelled := by
  have houtput : isWord (Ident.companion u.name.name outputVisitorSuffix).text = true :=
    isWord_of_isName (Ident.isName_companion hd.name.pascalCase (by decide))
  have hpath : (scope.imports.pathTo u.name).Spelled :=
    Imports.spelled_pathTo hscope.aliases hd.name
  have hslots : ∀ m ∈ u.members, ∀ boxed, (scope.viewed m.type boxed).tokens.Spelled :=
    fun m hm boxed => (hscope.references hmentions (List.mem_map_of_mem hm) boxed).2
  simp only [visitorItems, visitArms, visitMethods, memberCases, memberPat, unknownPat, unknownTag]
  simp +decide +contextual [houtput, hpath, isWord_memberVariant hd, isWord_visitMethod hd,
    hslots, or_imp]

end Members

section Holder

lemma spelled_holderConstants (e : ErrorDecl) :
    ∀ m ∈ holderConstants scope e, m.tokens.Spelled := by
  have hruntime := hscope.runtime
  have hcode : isWord (Ident.ofName e.code.variantName).text = true := by
    cases e.code <;> decide
  have herror : (scope.runtime.join ["ErrorCode"]).Spelled := hruntime.join (by decide)
  simp +decide [holderConstants, namesType, Scope.lib, Scope.libType, herror, hcode]

lemma spelled_holderInterface {self : Ty} (hself : self.tokens.Spelled) :
    (holderInterface scope self).tokens.Spelled := by
  have hruntime := hscope.runtime
  simp +decide [holderInterface, objectType, namesType, instanceType, Scope.lib, Scope.libType,
    hruntime, hself]

lemma spelled_holderCodec {self : Ty} (hself : self.tokens.Spelled) :
    ∀ item ∈ holderCodec scope self, item.tokens.Spelled := by
  have henvelope : (scope.runtime.join ["SerializableError"]).Spelled :=
    hscope.runtime.join (by decide)
  simp +decide [holderCodec, Scope.lib, henvelope, hself]

lemma spelled_serverItems {self : Ty} (hself : self.tokens.Spelled) :
    ∀ item ∈ serverItems scope self, item.tokens.Spelled := by
  have hruntime := hscope.runtime
  simp +decide [serverItems, Scope.lib, Scope.libType, hruntime, hself]

variable {e : ErrorDecl} (hd : (Declaration.error e).WellFormed)
  (hmentions : ∀ q ∈ (Declaration.error e).mentions, q.WellFormed)

include hd

omit hscope in
lemma isWord_parameters : isWord (Ident.companion e.name.name parametersSuffix).text = true :=
  isWord_of_isName (Ident.isName_companion hd.name.pascalCase (by decide))

omit hscope in
lemma isWord_param : ∀ p ∈ e.params, isWord (Ident.field p.name).text = true :=
  fun _ hp => isWord_of_isName (hd.isName_member (List.mem_map_of_mem hp))

include hmentions

lemma spelled_holderFunctions : ∀ m ∈ holderFunctions scope e, m.tokens.Spelled := by
  have hruntime := hscope.runtime
  have hmany : Attr.AllSpelled (if manyArguments < e.params.length then
      [Attr.ofArgs "allow" [.path (.ofWords ["clippy", "too_many_arguments"])]] else []) := by
    split <;> simp +decide
  have hslots : ∀ p ∈ e.params, ∀ boxed, (scope.stored p.type boxed).tokens.Spelled :=
    fun p hp boxed => (hscope.references hmentions (List.mem_map_of_mem hp) boxed).1
  simp only [holderFunctions, objectType, instanceType, Scope.lib, Scope.libType]
  simp +decide +contextual [hruntime, isWord_parameters hd, hmany, isWord_param hd, hslots]

lemma spelled_errorItems (server : Bool) :
    ∀ item ∈ errorItems scope server e, item.tokens.Spelled := by
  have hruntime := hscope.runtime
  have hself : isWord (Ident.ofName e.name.name).text = true := isWord_of_isName hd.isName_type
  have hown : (ownType e.name.name).tokens.Spelled := by simp [hself]
  have hslots : ∀ p ∈ e.params, (scope.stored p.type false).tokens.Spelled :=
    fun p hp => (hscope.references hmentions (List.mem_map_of_mem hp) false).1
  have hserver : ∀ item ∈ if server then serverItems scope (ownType e.name.name) else [],
      item.tokens.Spelled := by
    split
    · exact spelled_serverItems hscope hown
    · exact List.forall_mem_nil _
  have hparameters : (parametersItem scope e).tokens.Spelled := by
    simp +decide +contextual [parametersItem, paramFields, fieldOf, isWord_parameters hd,
      isWord_param hd, hslots]
  have hmembers : ∀ m ∈ holderConstants scope e ++ holderFunctions scope e, m.tokens.Spelled :=
    List.forall_mem_append.2
      ⟨spelled_holderConstants hscope e, spelled_holderFunctions hscope hd hmentions⟩
  rw [errorItems, List.forall_mem_append, List.forall_mem_append]
  refine ⟨⟨?_, spelled_holderCodec hscope hown⟩, hserver⟩
  simp only [List.forall_mem_cons]
  refine ⟨hparameters, ?_, ?_, spelled_holderInterface hscope hown, ?_, ?_, List.forall_mem_nil _⟩
  · simp +decide [instanceType, Scope.libType, Scope.lib, hruntime, hself, isWord_parameters hd]
  · exact Item.spelled_impl.2 ⟨List.forall_mem_nil _, by simp, hown, hmembers⟩
  · simp +decide [Scope.lib, hruntime, hself]
  · simp +decide [hself]

end Holder

lemma Group.spelled_items {d : Declaration} (hd : d.WellFormed)
    (hmentions : ∀ q ∈ d.mentions, q.WellFormed) (g : Group) (server : Bool) :
    ∀ item ∈ g.items scope server d, item.tokens.Spelled := by
  cases d with
  | «alias» a => cases g <;> exact spelled_aliasItems hscope hd hmentions
  | enum e => cases g <;> exact spelled_enumItems hscope hd
  | object o => cases g <;> exact spelled_objectItems hscope hd hmentions
  | union u =>
    cases g with
    | visitors => exact spelled_visitorItems hscope hd hmentions
    | _ => exact spelled_unionItems hscope hd hmentions
  | error e => cases g <;> exact spelled_errorItems hscope hd hmentions server

end Items

/-! ## Files -/

section Accepted

variable {doc : Document} {c : Contract} (hof : c.Of doc)

include hof

lemma wellFormed_of_mem_mentions {d : Declaration} (hd : d ∈ c.registry.declarations) :
    ∀ q ∈ d.mentions, q.WellFormed := by
  intro q hq
  obtain ⟨e, he, rfl, -⟩ := hof.lawful.declared q ⟨d, hd, Declaration.mem_mentions_iff.1 hq⟩
  exact (hof.lawful.wellFormed e he).name

lemma plainIdentifier_segment {m : String} (hm : m ∈ c.registry.modules) :
    ∀ s ∈ Text.split '.' m, PlainIdentifier s :=
  fun s hs => (segments_wellFormed hof hm s hs).1.plainIdentifier

variable {ds : List Declaration} (hds : ds ⊆ c.registry.declarations) (runtime : Path)
  (module : String)

include hds

lemma plainIdentifier_alias {p : String × String}
    (hp : p ∈ (scopeOf c runtime module ds).imports.aliases) : PlainIdentifier p.2 := by
  have hmodule := mem_modules_of_mem_aliases hof hds runtime module hp
  obtain ⟨-, -, k, hname⟩ := (unambiguous_scopeOf c runtime module ds).named p hp
  rw [hname]
  exact plainIdentifier_suffixed (plainIdentifier_segment hof hmodule _ (lastSegment_mem p.1)) k

variable {runtime} (hruntime : runtime.Spelled)

include hruntime

lemma spelled_scopeOf : (scopeOf c runtime module ds).Spelled :=
  ⟨hruntime, fun _ hp => plainIdentifier_alias hof hds runtime module hp⟩

lemma spelled_fileOf (server : Bool) (g : Group) :
    (fileOf c runtime server module g ds).tokens.Spelled := by
  have hscope := spelled_scopeOf hof hds module hruntime
  refine File.spelled_tokens.2 ⟨allSpelled_gate g, List.forall_mem_append.2 ⟨?_, ?_⟩⟩
  · intro item hitem
    obtain ⟨p, hp, rfl⟩ := List.mem_map.1 hitem
    have hmodule := mem_modules_of_mem_aliases hof hds runtime module hp
    have hpath : ((scopeOf c runtime module ds).imports.fromRoot p.1).Spelled := by
      refine Imports.spelled_fromRoot _ fun i hi => ?_
      obtain ⟨s, hs, rfl⟩ := List.mem_map.1 hi
      exact isWord_ofName (plainIdentifier_segment hof hmodule s hs)
    have hname := isWord_ofName (hscope.aliases p hp)
    rw [Item.spelled_use]
    refine ⟨by simp [Attr.AllSpelled], Path.spelled_tokens hpath, ?_⟩
    split
    · exact Item.spelled_importTokens_item
    · exact Item.spelled_importTokens_renamed.2 hname
  · intro item hitem
    obtain ⟨d, hd, hitem⟩ := List.mem_flatMap.1 hitem
    have hwell := hof.lawful.wellFormed d (hds hd)
    exact g.spelled_items hscope hwell (wellFormed_of_mem_mentions hof (hds hd)) server item hitem

end Accepted

lemma Forest.spelled_packageFile {files : List SourceFile} {below : Forest}
    (hnames : ∀ name ∈ below.names, PlainIdentifier name) :
    (packageFile files below).tokens.Spelled := by
  have hstem : ∀ g : Group, isWord (Ident.ofName g.stem).text = true := by
    intro g
    cases g <;> decide
  have hself : isWord "self" = true := by decide
  rw [File.spelled_tokens, packageFile, List.forall_mem_append, List.forall_mem_map]
  refine ⟨by simp [Attr.AllSpelled], fun name hname => ?_, fun item hitem => ?_⟩
  · simp [isWord_ofName (hnames name hname), Attr.AllSpelled]
  · obtain ⟨f, -, hitem⟩ := List.mem_flatMap.1 hitem
    rw [List.mem_pair] at hitem
    rcases hitem with rfl | rfl
    · simp [hstem]
    · simp [Path.spelled_tokens_iff, hstem, hself]

/-- Every word of every file in the tree of a contract is an identifier or an index. -/
theorem spelled_files {doc : Document} {c : Contract} (hof : c.Of doc) {runtime : Path}
    (hruntime : runtime.Spelled) (o : Options) :
    ∀ t ∈ (forestOf c runtime o).files, t.file.tokens.Spelled := by
  have hf := arranges_forestOf c runtime o
  intro t ht
  obtain ⟨path, package, hpackage, rfl | ⟨s, hs, rfl⟩⟩ := hf.sorted.mem_files_iff.1 ht
  · refine Forest.spelled_packageFile fun name hname => ?_
    obtain ⟨own, hown⟩ := (Forest.mem_names_iff_exists_filesAt? hpackage).1 hname
    obtain ⟨m, hm, hstart⟩ := hf.exists_module_of_filesAt? (by simp) hown
    exact plainIdentifier_segment hof hm name (hstart.subset (by simp))
  · obtain ⟨m, -, -, hs⟩ := hf.exists_module_of_mem hpackage hs
    obtain ⟨-, -, hfile⟩ := mem_moduleFiles_iff.1 hs
    have hds : (c.registry.moduleDeclarations m).filter s.group.has ⊆ c.registry.declarations :=
      fun d hd => List.mem_of_mem_filter (List.mem_of_mem_filter hd)
    rw [SourceFile.inPackage, hfile]
    exact spelled_fileOf hof hds m hruntime o.server s.group

end WireContract.Emit
