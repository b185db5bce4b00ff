import WireContract.Proofs.AliasEnds
import WireContract.Proofs.TypeSize

/-!
# Derived traits are satisfiable

A type can derive a trait only if all that its slots hold has the trait.  Whether it derives one is
decided in three places: by the greatest set of ordered names, by the check of items and keys, and
by following aliases to a collection.  Here the decisions are held against what the types store.

`Definition.ofItem?` reads off an item which traits it derives, what its slots hold and which fields
read null as their default; `definitions` lists the same for a declaration, and the two agree item
by item (`definitions_items`).  `Stored.HasOrder` and `Stored.HasDefault` say when a stored form has
the traits of an order and a default, given what the declared types derive.

An order comes from the reference: a slot whose reference is ordered stores a form that has an order
(`hasOrder_stored`).  A default comes from the chain of aliases: along it every alias
derives one, and no slot of it is boxed, since a chain that came back to its start would not end
(`Contract.Of.isBoxed_eq_false`).
-/

namespace WireContract.Schema

open Relation

/-! ## What collections hold in place -/

namespace Registry

variable {reg : Registry}

lemma isCollection_of_holdsInPlace {r : TypeRef} {q : QualifiedName} (hq : r.HoldsInPlace q)
    (hr : reg.isCollection r = true) : reg.isCollection (.declared q) = true := by
  induction hq with
  | declared q => exact hr
  | optional => cases hr
  | external _ _ ih => exact ih hr

/-- A declared collection holds in place at most the next alias of its chain, and this is a
collection again. -/
lemma Indexed.aliasStep_of_heldIn (hreg : reg.Indexed) {a b : QualifiedName}
    (ha : reg.isCollection (.declared a) = true) (hab : HeldIn reg.declarations a b) :
    AliasStep reg.declarations a b ∧ reg.isCollection (.declared b) = true := by
  obtain ⟨r, hend, hcontainer⟩ := hreg.isCollection_declared_iff.1 ha
  obtain ⟨d, hd, hname, member, t, ht, hb⟩ := hab
  cases hend with
  | type => cases hcontainer
  | @link x next _ hx htarget hnext =>
    obtain rfl := hreg.eq_of_name_eq hd hx hname
    obtain ⟨rfl, rfl⟩ := Prod.mk.inj (List.mem_singleton.1 ht)
    rw [htarget] at hb
    cases hb
    exact ⟨⟨x, hx, rfl, htarget⟩, hreg.isCollection_declared_iff.2 ⟨r, hnext, hcontainer⟩⟩
  | @target x _ hx htarget hr =>
    obtain rfl := hreg.eq_of_name_eq hd hx hname
    obtain ⟨rfl, rfl⟩ := Prod.mk.inj (List.mem_singleton.1 ht)
    -- the target is a list, a set or a map as it stands, and those hold nothing in place
    cases htype : x.target with
    | declared q => exact (htarget q htype).elim
    | primitive | binary | list | set | map =>
      rw [htype] at hb
      cases hb
    | optional inner | external q inner =>
      rw [htype, resolve, Outcome.bind_ok_iff] at hr
      obtain ⟨s, -, hs⟩ := hr
      obtain rfl := Outcome.pure_ok_iff.1 hs
      cases hcontainer

/-- From a declared collection, holding in place leads along the chain of aliases only. -/
lemma Indexed.aliasSteps_of_held (hreg : reg.Indexed) {a b : QualifiedName}
    (ha : reg.isCollection (.declared a) = true)
    (hab : ReflTransGen (HeldIn reg.declarations) a b) :
    ReflTransGen (AliasStep reg.declarations) a b ∧ reg.isCollection (.declared b) = true := by
  induction hab with
  | refl => exact ⟨.refl, ha⟩
  | tail _ hstep ih =>
    obtain ⟨hsteps, hcollection⟩ := ih
    obtain ⟨hnext, hcollection'⟩ := hreg.aliasStep_of_heldIn hcollection hstep
    exact ⟨hsteps.tail hnext, hcollection'⟩

end Registry

/-- A slot of a collection is not boxed: what it holds in place is on a chain of aliases, and no
chain comes back. -/
lemma Contract.Of.isBoxed_eq_false {c : Contract} {doc : Document} (hof : c.Of doc)
    {d : Declaration} (hd : d ∈ c.registry.declarations) {member : String} {r : TypeRef}
    (hr : (member, r) ∈ d.references) (hcollection : c.registry.isCollection r = true) :
    c.isBoxed d.name member = false := by
  rw [← Bool.not_eq_true, hof.isBoxed_slot_iff (hof.perm.mem_iff.1 hd) hr,
    ← heldIn_perm hof.perm]
  rintro ⟨q, hq, hback⟩
  have hheld := Registry.isCollection_of_holdsInPlace hq hcollection
  obtain ⟨hsteps, howner⟩ := hof.indexed.aliasSteps_of_held hheld hback
  have hfirst : HeldIn c.registry.declarations d.name q := ⟨d, hd, rfl, member, r, hr, hq⟩
  obtain ⟨hstep, -⟩ := hof.indexed.aliasStep_of_heldIn howner hfirst
  exact hof.lawful.aliases d.name (TransGen.head' hstep hsteps)

end WireContract.Schema

namespace WireContract.Emit

open Rust Schema Relation

/-! ## What items derive -/

/-- The traits of an order. -/
def orderTraits : List Path := [["Eq"], ["PartialOrd"], ["Ord"], ["Hash"]].map Path.ofWords

/-- The trait of types with a default. -/
def defaultTrait : Path := .ofWords ["Default"]

/-- The path that an argument of an attribute is. -/
def pathOfArg : AttrArg → Option Path
  | .path p => some p
  | .keyed _ _ => none

/-- The traits that an attribute derives. -/
def derivesOfAttr : Attr → List Path
  | .list p args =>
    if p = .ofWords ["derive"] then
      args.filterMap pathOfArg
    else []
  | _ => []

/-- The traits that an item derives. -/
def derivesOfItem : Item → List Path
  | .struct attrs _ _ _ => attrs.flatMap derivesOfAttr
  | .enum attrs _ _ => attrs.flatMap derivesOfAttr
  | _ => []

/-- An attribute by which a field that is missing or null has the default of its type. -/
def readsNullAsDefault (runtime : Path) : Attr → Bool
  | .list p args =>
    let reader := runtime.join ["collections", "null_as_default"]
    p == .ofWords ["serde"] && args.contains (.path (.ofWords ["default"])) &&
      args.contains (.keyed "deserialize_with" reader.text)
  | _ => false

/-- The types of the fields that read null as their default. -/
def defaultedOfItem (runtime : Path) : Item → List Ty
  | .struct _ _ _ (.named fields) =>
    (fields.filter fun f => f.attrs.any (readsNullAsDefault runtime)).map (·.type)
  | _ => []

/-- A definition of a type, as far as traits are concerned. -/
structure Definition (Name Slot : Type) where
  name : Name
  derives : List Path
  slots : List Slot
  /-- Those of the slots that read null as their default. -/
  defaulted : List Slot

/-- The definition that an item is, if it is one. -/
def Definition.ofItem? (runtime : Path) (i : Item) : Option (Definition Ident Ty) :=
  (typeDef? i).map fun t => ⟨t.1, derivesOfItem i, t.2, defaultedOfItem runtime i⟩

/-- The definition as a file spells it. -/
def Definition.spelled (scope : Scope) (x : Definition EmittedType Held) : Definition Ident Ty :=
  ⟨x.name.ident, x.derives, x.slots.map (Held.type scope), x.defaulted.map (Held.type scope)⟩

/-- A field of a reference that reads null as its default. -/
def isDefaulted (c : Contract) (r : TypeRef) : Bool := c.registry.fieldRule r == .emptyDefault

/-- The definitions of the types emitted for a declaration. -/
def definitions (c : Contract) : Declaration → List (Definition EmittedType Held)
  | .alias a =>
    [⟨.declared a.name,
      derivedTraits (c.isOrderable a.name) (c.registry.isCollection a.target) true,
      [.stored (a.target.stored (c.isBoxed a.name ""))], []⟩]
  | .enum e =>
    [⟨.declared e.name, derivedTraits (c.isOrderable e.name) false false,
      [.library ["enums", "UnknownValue"]], []⟩]
  | .object o =>
    let slot (f : Field) : Held := .stored (f.type.stored (c.isBoxed o.name f.name))
    [⟨.declared o.name, derivedTraits (c.isOrderable o.name) false true, o.fields.map slot,
      (o.fields.filter fun f => isDefaulted c f.type).map slot⟩]
  | .union u =>
    [⟨.declared u.name, derivedTraits false false false,
      u.members.map (fun m => .stored (m.type.stored (c.isBoxed u.name m.tag))) ++
        [.library ["union", "UnknownMember"]], []⟩]
  | .error e =>
    let slot (p : Param) : Held := .stored (p.type.stored false)
    [⟨.parameters e.name,
      derivedTraits (e.params.all fun p => p.type.isOrderable c.orderable) false true,
      e.params.map slot, (e.params.filter fun p => isDefaulted c p.type).map slot⟩,
     ⟨.declared e.name, derivedTraits false false false,
      [.library ["uuid", "Uuid"], .parameters e.name], []⟩]

section Read

variable {scope : Scope}

@[simp] lemma derivesOfAttr_deriveAttr (orderable default serde : Bool) :
    derivesOfAttr (deriveAttr orderable default serde) = derivedTraits orderable default serde := by
  simp [deriveAttr, Attr.ofArgs, derivesOfAttr, pathOfArg, List.filterMap_map, Function.comp_def]

@[simp] lemma flatMap_derivesOfAttr_docLines (docs : Option String) :
    (docLines docs).flatMap derivesOfAttr = [] := by
  cases docs with
  | none => rfl
  | some docs => simp [docLines, List.flatMap_map, derivesOfAttr]

@[simp] lemma flatMap_derivesOfAttr_notes (lines : List String) :
    (notes lines).flatMap derivesOfAttr = [] := by
  simp [notes, List.flatMap_map, derivesOfAttr]

@[simp] lemma derivesOfAttr_serde (args : List AttrArg) :
    derivesOfAttr (.ofArgs "serde" args) = [] := by
  simp [derivesOfAttr, Attr.ofArgs, Path.ofWords]

@[simp] lemma type_fieldOf (key : String) (r : TypeRef) (docs : Option String) (boxed : Bool) :
    (fieldOf scope key r docs boxed).type = scope.stored r boxed := rfl

/-- What no line of documentation says is said of a field by the attribute of its encoding. -/
lemma any_attrs_fieldOf {p : Attr → Bool} (hdoc : ∀ line, p (.doc line) = false)
    (key : String) (r : TypeRef) (docs : Option String) (boxed : Bool) :
    (fieldOf scope key r docs boxed).attrs.any p = p (fieldAttr scope key r) := by
  have hdocs : (docLines docs).any p = false := by
    cases docs with
    | none => rfl
    | some docs => simp [docLines, hdoc]
  rw [fieldOf, List.any_append, hdocs, Bool.false_or, List.any_cons, List.any_nil, Bool.or_false]

/-- A field reads null as its default exactly if its rule says so. -/
@[simp] lemma readsNullAsDefault_fieldOf (key : String) (r : TypeRef) (docs : Option String)
    (boxed : Bool) :
    (fieldOf scope key r docs boxed).attrs.any (readsNullAsDefault scope.runtime) =
      isDefaulted scope.contract r := by
  rw [any_attrs_fieldOf fun _ => rfl, isDefaulted, fieldAttr]
  cases scope.contract.registry.fieldRule r with
  | required => simp [Attr.ofArgs, readsNullAsDefault]
  | emptyDefault => simp [Attr.ofArgs, readsNullAsDefault, Scope.lib]
  | omitted => simp [Attr.ofArgs, readsNullAsDefault]

/-- The items of a declaration are its definitions and no others; the file of visitors defines no
type. -/
lemma definitions_items {server : Bool} {g : Group} {d : Declaration} (hg : g.has d = true) :
    (g.items scope server d).filterMap (Definition.ofItem? scope.runtime) =
      if g = .visitors then [] else (definitions scope.contract d).map (.spelled scope) := by
  cases d with
  | «alias» a =>
    cases g with
    | aliases =>
      simp [Group.items, aliasItems, Definition.ofItem?, typeDef?, derivesOfItem, defaultedOfItem,
        definitions, Definition.spelled, targetType, EmittedType.ident, Held.type, Scope.stored]
    | _ => cases hg
  | enum e =>
    cases g with
    | enums =>
      simp [Group.items, enumItems, Definition.ofItem?, typeDef?, derivesOfItem, defaultedOfItem,
        definitions, Definition.spelled, enumVariants, EmittedType.ident, Held.type, displayImpl,
        serializeImpl, deserializeImpl]
    | _ => cases hg
  | object o =>
    cases g with
    | objects =>
      simp [Group.items, objectItems, Definition.ofItem?, typeDef?, derivesOfItem, defaultedOfItem,
        definitions, Definition.spelled, objectFields, List.filter_map, EmittedType.ident,
        Held.type, Scope.stored, Function.comp_def]
    | _ => cases hg
  | union u =>
    cases g with
    | unions =>
      simp [Group.items, unionItems, Definition.ofItem?, typeDef?, derivesOfItem, defaultedOfItem,
        definitions, Definition.spelled, unionVariants, EmittedType.ident, Held.type, Scope.stored,
        serializeImpl, deserializeImpl]
    | visitors => simp [Group.items, visitorItems, Definition.ofItem?, typeDef?]
    | _ => cases hg
  | error e =>
    cases g with
    | errors =>
      have hserver : (if server then serverItems scope (ownType e.name.name) else []).filterMap
          (Definition.ofItem? scope.runtime) = [] := by
        cases server <;> simp [serverItems, Definition.ofItem?, typeDef?]
      have hitems : Group.errors.items scope server (.error e) = errorItems scope server e := rfl
      rw [hitems, errorItems, List.filterMap_append, hserver]
      simp [Definition.ofItem?, typeDef?, derivesOfItem, defaultedOfItem, definitions,
        Definition.spelled, parametersItem, paramFields, List.filter_map, EmittedType.ident,
        Held.type, Scope.stored, instanceType, holderInterface, holderCodec, displayImpl,
        serializeImpl, deserializeImpl, Function.comp_def]
    | _ => cases hg

end Read

/-! ## Having a trait -/

/-- An emitted type derives traits. -/
def Derives (c : Contract) (t : EmittedType) (traits : List Path) : Prop :=
  ∃ d ∈ c.registry.declarations, ∃ x ∈ definitions c d, x.name = t ∧ traits ⊆ x.derives

/-- A stored form has an order: nothing in it, at any depth, is a number in floating point, an
arbitrary value, or a declared type that derives none. -/
def Stored.HasOrder (c : Contract) : Stored → Prop
  | .primitive p => p ≠ .double ∧ p ≠ .any
  | .binary => True
  | .option t | .vec t | .set t | .boxed t => t.HasOrder c
  | .map k v => k.HasOrder c ∧ v.HasOrder c
  | .named q => Derives c (.declared q) orderTraits

/-- A stored form has a default: it is a collection, or an alias that derives one. -/
def Stored.HasDefault (c : Contract) : Stored → Prop
  | .vec _ | .set _ | .map _ _ => True
  | .named q => (∃ a, .alias a ∈ c.registry.declarations ∧ a.name = q) ∧
      Derives c (.declared q) [defaultTrait]
  | .primitive _ | .binary | .option _ | .boxed _ => False

/-- The types of the runtime library that have an order. -/
def orderedLibraryTypes : List (List String) := [["enums", "UnknownValue"], ["uuid", "Uuid"]]

/-- What a slot holds has an order. -/
def Held.HasOrder (c : Contract) : Held → Prop
  | .stored form => form.HasOrder c
  | .parameters q => Derives c (.parameters q) orderTraits
  | .library words => words ∈ orderedLibraryTypes

/-- What a slot holds has a default. -/
def Held.HasDefault (c : Contract) : Held → Prop
  | .stored form => form.HasDefault c
  | .parameters _ | .library _ => False

/-- Every set in a stored form, at any depth, has items with an order, and every map has keys with
one. -/
def Stored.HasOrderedKeys (c : Contract) : Stored → Prop
  | .primitive _ | .binary | .named _ => True
  | .option t | .vec t | .boxed t => t.HasOrderedKeys c
  | .set t => t.HasOrder c ∧ t.HasOrderedKeys c
  | .map k v => k.HasOrder c ∧ k.HasOrderedKeys c ∧ v.HasOrderedKeys c

lemma orderTraits_subset_derivedTraits (default serde : Bool) :
    orderTraits ⊆ derivedTraits true default serde := by
  intro p hp
  simp only [derivedTraits, if_true, List.mem_append]
  exact .inl (.inl (.inr hp))

lemma orderable_of_mem_derivedTraits {orderable default serde : Bool} {p : Path}
    (hp : p ∈ orderTraits) (h : p ∈ derivedTraits orderable default serde) : orderable = true := by
  cases orderable with
  | true => rfl
  | false =>
    revert p
    cases default <;> cases serde <;> decide

lemma defaultTrait_mem_derivedTraits_iff {orderable default serde : Bool} :
    defaultTrait ∈ derivedTraits orderable default serde ↔ default = true := by
  cases orderable <;> cases default <;> cases serde <;> decide

/-- An alias of a collection derives a default. -/
lemma derives_default {c : Contract} {a : Alias} (ha : .alias a ∈ c.registry.declarations)
    (hcollection : c.registry.isCollection a.target = true) :
    Derives c (.declared a.name) [defaultTrait] := by
  refine ⟨_, ha, _, List.mem_singleton_self _, rfl, List.cons_subset.2 ⟨?_, List.nil_subset _⟩⟩
  exact defaultTrait_mem_derivedTraits_iff.2 hcollection

lemma isDefaulted_iff {c : Contract} {r : TypeRef} :
    isDefaulted c r = true ↔ c.registry.isCollection r = true := by
  unfold isDefaulted Registry.fieldRule
  rw [beq_iff_eq]
  by_cases h : c.registry.isCollection r = true
  · simp [h]
  · cases r <;> simp [h]

/-- What a slot stores is the form of one of the references. -/
lemma exists_reference_of_stored {c : Contract} {d : Declaration}
    {x : Definition EmittedType Held} (hx : x ∈ definitions c d) {form : Stored}
    (hform : .stored form ∈ x.slots) :
    ∃ member r boxed, (member, r) ∈ d.references ∧ form = r.stored boxed := by
  cases d with
  | «alias» a =>
    obtain rfl := List.mem_singleton.1 hx
    obtain rfl := Held.stored.inj (List.mem_singleton.1 hform)
    exact ⟨_, _, _, List.mem_singleton_self _, rfl⟩
  | enum e =>
    obtain rfl := List.mem_singleton.1 hx
    cases List.mem_singleton.1 hform
  | object o =>
    obtain rfl := List.mem_singleton.1 hx
    obtain ⟨f, hf, heq⟩ := List.mem_map.1 hform
    exact ⟨f.name, f.type, _, List.mem_map.2 ⟨f, hf, rfl⟩, (Held.stored.inj heq).symm⟩
  | union u =>
    obtain rfl := List.mem_singleton.1 hx
    rcases List.mem_append.1 hform with hform | hform
    · obtain ⟨m, hm, heq⟩ := List.mem_map.1 hform
      exact ⟨m.tag, m.type, _, List.mem_map.2 ⟨m, hm, rfl⟩, (Held.stored.inj heq).symm⟩
    · cases List.mem_singleton.1 hform
  | error e =>
    simp only [definitions, List.mem_cons, List.not_mem_nil, or_false] at hx
    rcases hx with rfl | rfl
    · obtain ⟨p, hp, heq⟩ := List.mem_map.1 hform
      exact ⟨p.name, p.type, _, List.mem_map.2 ⟨p, hp, rfl⟩, (Held.stored.inj heq).symm⟩
    · simp at hform

/-! ## Orders -/

section Accepted

variable {doc : Document} {c : Contract} (hof : c.Of doc)

include hof

/-- A declared type that is ordered derives an order. -/
lemma derives_of_isOrderable {q : QualifiedName} (hq : c.isOrderable q = true) :
    Derives c (.declared q) orderTraits := by
  have hmem : q ∈ c.registry.orderable := by
    rwa [Contract.isOrderable, hof.orderable, List.contains_iff_mem] at hq
  obtain ⟨d, hd, rfl, hunion, herror⟩ :=
    Registry.mem_orderCandidates_iff.1 (Registry.demote_subset _ _ hmem)
  cases d with
  | «alias» | enum | object =>
    refine ⟨_, hd, _, List.mem_singleton_self _, rfl, ?_⟩
    simp only [Declaration.name] at hq
    rw [hq]
    exact orderTraits_subset_derivedTraits _ _
  | union => exact (hunion rfl).elim
  | error => exact (herror rfl).elim

/-- A slot of an ordered reference stores a form that has an order, boxed or not. -/
lemma hasOrder_stored (r : TypeRef) (boxed : Bool) (hr : r.isOrderable c.orderable = true) :
    (r.stored boxed).HasOrder c := by
  induction r generalizing boxed with
  | primitive p =>
    cases p with
    | double | any => cases hr
    | _ => exact ⟨by decide, by decide⟩
  | binary => trivial
  | optional inner ih => exact ih boxed hr
  | external q inner ih => exact ih boxed hr
  | list inner ih => exact ih false hr
  | set inner ih => exact ih false hr
  | map key value ihk ihv =>
    rw [TypeRef.isOrderable, Bool.and_eq_true] at hr
    exact ⟨ihk false hr.1, ihv false hr.2⟩
  | declared q =>
    have hderives : Derives c (.declared q) orderTraits := derives_of_isOrderable hof hr
    cases boxed with
    | false => exact hderives
    | true => exact hderives

/-- The references of a declaration whose type derives an order are ordered. -/
lemma isOrderable_reference {d : Declaration} (hd : d ∈ c.registry.declarations)
    (hq : c.isOrderable d.name = true) {member : String} {r : TypeRef}
    (hr : (member, r) ∈ d.references) : r.isOrderable c.orderable = true := by
  have hmem : d.name ∈ c.registry.orderable := by
    rwa [Contract.isOrderable, hof.orderable, List.contains_iff_mem] at hq
  have hkeeps := Registry.keepsOrder_of_mem_orderable hmem
  rw [Registry.keepsOrder, hof.indexed.get?_name hd, List.all_eq_true] at hkeeps
  rw [hof.orderable]
  exact hkeeps _ hr

/-- Where the items and keys inside a reference are ordered, so are those of its stored form. -/
lemma hasOrderedKeys_stored {r : TypeRef} (boxed : Bool)
    (hitems : ∀ item, .set item ∈ r.subterms → item.isOrderable c.orderable = true)
    (hkeys : ∀ key value, .map key value ∈ r.subterms → key.isOrderable c.orderable = true) :
    (r.stored boxed).HasOrderedKeys c := by
  induction r generalizing boxed with
  | primitive | binary => trivial
  | declared q => cases boxed <;> trivial
  | optional inner ih | external q inner ih =>
    exact ih boxed (fun item h => hitems item (List.mem_cons_of_mem _ h))
      fun key value h => hkeys key value (List.mem_cons_of_mem _ h)
  | list inner ih =>
    exact ih false (fun item h => hitems item (List.mem_cons_of_mem _ h))
      fun key value h => hkeys key value (List.mem_cons_of_mem _ h)
  | set inner ih =>
    refine ⟨hasOrder_stored hof inner false (hitems inner List.mem_cons_self), ?_⟩
    exact ih false (fun item h => hitems item (List.mem_cons_of_mem _ h))
      fun key value h => hkeys key value (List.mem_cons_of_mem _ h)
  | map key value ihk ihv =>
    refine ⟨hasOrder_stored hof key false (hkeys key value List.mem_cons_self), ?_, ?_⟩
    · exact ihk false
        (fun item h => hitems item (List.mem_cons_of_mem _ (List.mem_append_left _ h)))
        fun k v h => hkeys k v (List.mem_cons_of_mem _ (List.mem_append_left _ h))
    · exact ihv false
        (fun item h => hitems item (List.mem_cons_of_mem _ (List.mem_append_right _ h)))
        fun k v h => hkeys k v (List.mem_cons_of_mem _ (List.mem_append_right _ h))

/-- The sets and maps that a declaration refers to have ordered items and keys. -/
lemma hasOrderedKeys_reference {d : Declaration} (hd : d ∈ c.registry.declarations)
    {member : String} {r : TypeRef} (hr : (member, r) ∈ d.references) (boxed : Bool) :
    (r.stored boxed).HasOrderedKeys c := by
  have hoccurs : ∀ t ∈ r.subterms, Occurs c.registry.declarations t :=
    fun t ht => ⟨d, hd, member, r, hr, ht⟩
  have hordered : ∀ t, Occurs c.registry.declarations t →
      OrderedThroughout c.registry.declarations t → t.isOrderable c.orderable = true := by
    intro t ht horder
    rw [hof.orderable]
    exact (hof.indexed.isOrderable_iff_orderedThroughout hof.lawful.declared ht).2 horder
  refine hasOrderedKeys_stored hof boxed (fun item hitem => ?_) fun key value hmap => ?_
  · refine hordered item ((hoccurs _ hitem).part ?_) (hof.lawful.items item (hoccurs _ hitem))
    exact List.mem_cons_of_mem _ (TypeRef.self_mem_subterms item)
  · refine hordered key ((hoccurs _ hmap).part ?_) (hof.lawful.keys key value (hoccurs _ hmap)).1
    exact List.mem_cons_of_mem _ (List.mem_append_left _ (TypeRef.self_mem_subterms key))

/-! ## Defaults -/

/-- A slot of a collection without a box stores a form that has a default. -/
lemma hasDefault_stored {r : TypeRef} (hr : c.registry.isCollection r = true) :
    (r.stored false).HasDefault c := by
  induction r with
  | list | set | map => trivial
  | external q inner ih => exact ih hr
  | declared q =>
    obtain ⟨a, ha, rfl, htarget⟩ := hof.indexed.isCollection_target hr
    exact ⟨⟨a, ha, rfl⟩, derives_default ha htarget⟩
  | primitive | binary | optional => cases hr

lemma hasDefault_slot {d : Declaration} (hd : d ∈ c.registry.declarations) {member : String}
    {r : TypeRef} (hr : (member, r) ∈ d.references)
    (hcollection : c.registry.isCollection r = true) :
    (r.stored (c.isBoxed d.name member)).HasDefault c := by
  rw [hof.isBoxed_eq_false hd hr hcollection]
  exact hasDefault_stored hof hcollection

/-! ## The definitions of a contract -/

/-- A type that derives one trait of an order holds only what has an order. -/
lemma hasOrder_of_derives {d : Declaration} (hd : d ∈ c.registry.declarations)
    {x : Definition EmittedType Held} (hx : x ∈ definitions c d) {p : Path} (hp : p ∈ orderTraits)
    (hderives : p ∈ x.derives) : ∀ slot ∈ x.slots, slot.HasOrder c := by
  intro slot hslot
  cases d with
  | «alias» a =>
    obtain rfl := List.mem_singleton.1 hx
    have horder := orderable_of_mem_derivedTraits hp hderives
    obtain rfl := List.mem_singleton.1 hslot
    exact hasOrder_stored hof _ _
      (isOrderable_reference hof hd horder (List.mem_singleton_self _))
  | enum e =>
    obtain rfl := List.mem_singleton.1 hx
    obtain rfl := List.mem_singleton.1 hslot
    exact List.mem_cons_self
  | object o =>
    obtain rfl := List.mem_singleton.1 hx
    have horder := orderable_of_mem_derivedTraits hp hderives
    obtain ⟨f, hf, rfl⟩ := List.mem_map.1 hslot
    exact hasOrder_stored hof _ _ (isOrderable_reference hof hd horder
      (List.mem_map.2 ⟨f, hf, rfl⟩ : (f.name, f.type) ∈ _))
  | union u =>
    obtain rfl := List.mem_singleton.1 hx
    cases orderable_of_mem_derivedTraits hp hderives
  | error e =>
    simp only [definitions, List.mem_cons, List.not_mem_nil, or_false] at hx
    rcases hx with rfl | rfl
    · have horder := orderable_of_mem_derivedTraits hp hderives
      obtain ⟨q, hq, rfl⟩ := List.mem_map.1 hslot
      exact hasOrder_stored hof _ _ (List.all_eq_true.1 horder q hq)
    · cases orderable_of_mem_derivedTraits hp hderives

/-- A type that derives a default is an alias, and what it holds has a default. -/
lemma hasDefault_of_derives {d : Declaration} (hd : d ∈ c.registry.declarations)
    {x : Definition EmittedType Held} (hx : x ∈ definitions c d)
    (hderives : defaultTrait ∈ x.derives) :
    d.kind = .alias ∧ ∀ slot ∈ x.slots, slot.HasDefault c := by
  cases d with
  | «alias» a =>
    obtain rfl := List.mem_singleton.1 hx
    have hcollection := defaultTrait_mem_derivedTraits_iff.1 hderives
    refine ⟨rfl, fun slot hslot => ?_⟩
    obtain rfl := List.mem_singleton.1 hslot
    exact hasDefault_slot hof hd (List.mem_singleton_self _) hcollection
  | enum | object | union =>
    obtain rfl := List.mem_singleton.1 hx
    cases defaultTrait_mem_derivedTraits_iff.1 hderives
  | error e =>
    simp only [definitions, List.mem_cons, List.not_mem_nil, or_false] at hx
    rcases hx with rfl | rfl
    · cases defaultTrait_mem_derivedTraits_iff.1 hderives
    · cases defaultTrait_mem_derivedTraits_iff.1 hderives

/-- A field that reads null as its default holds what has one. -/
lemma hasDefault_of_defaulted {d : Declaration} (hd : d ∈ c.registry.declarations)
    {x : Definition EmittedType Held} (hx : x ∈ definitions c d) :
    ∀ slot ∈ x.defaulted, slot.HasDefault c := by
  intro slot hslot
  cases d with
  | «alias» | enum | union =>
    obtain rfl := List.mem_singleton.1 hx
    exact (List.not_mem_nil hslot).elim
  | object o =>
    obtain rfl := List.mem_singleton.1 hx
    obtain ⟨f, hf, rfl⟩ := List.mem_map.1 hslot
    obtain ⟨hf, hdefaulted⟩ := List.mem_filter.1 hf
    exact hasDefault_slot hof hd (List.mem_map.2 ⟨f, hf, rfl⟩ : (f.name, f.type) ∈ _)
      (isDefaulted_iff.1 hdefaulted)
  | error e =>
    simp only [definitions, List.mem_cons, List.not_mem_nil, or_false] at hx
    rcases hx with rfl | rfl
    · obtain ⟨p, hp, rfl⟩ := List.mem_map.1 hslot
      exact hasDefault_stored hof (isDefaulted_iff.1 (List.mem_filter.1 hp).2)
    · exact (List.not_mem_nil hslot).elim

end Accepted

/-- In a contract, the traits that emitted types derive are satisfiable.  The items of each
declaration are its definitions; a type that derives one trait of an order holds only what has an
order; the items of sets and the keys of maps, at any depth of any slot, have an order; a type that
derives a default is an alias that holds what has a default, and so does every field that reads null
as its default. -/
theorem derived_traits_satisfiable (doc : Document) (c : Contract)
    (h : Contract.ofDocument doc = .ok c) (d : Declaration) (hd : d ∈ doc.declarations) :
    (∀ g : Group, g.has d = true → ∀ scope : Scope, scope.contract = c → ∀ server,
      (g.items scope server d).filterMap (Definition.ofItem? scope.runtime) =
        if g = .visitors then [] else (definitions c d).map (.spelled scope)) ∧
    ∀ x ∈ definitions c d,
      (∀ p ∈ orderTraits, p ∈ x.derives → ∀ slot ∈ x.slots, slot.HasOrder c) ∧
      (∀ form, .stored form ∈ x.slots → form.HasOrderedKeys c) ∧
      (defaultTrait ∈ x.derives → d.kind = .alias ∧ ∀ slot ∈ x.slots, slot.HasDefault c) ∧
      ∀ slot ∈ x.defaulted, slot.HasDefault c := by
  have hof := Contract.of_ofDocument h
  have hd' : d ∈ c.registry.declarations := hof.perm.mem_iff.2 hd
  refine ⟨?_, fun x hx => ⟨fun p hp hderives => ?_, fun form hform => ?_, fun hderives => ?_, ?_⟩⟩
  · rintro g hg scope rfl server
    exact definitions_items hg
  · exact hasOrder_of_derives hof hd' hx hp hderives
  · obtain ⟨member, r, boxed, hr, rfl⟩ := exists_reference_of_stored hx hform
    exact hasOrderedKeys_reference hof hd' hr boxed
  · exact hasDefault_of_derives hof hd' hx hderives
  · exact hasDefault_of_defaulted hof hd' hx

/-- A card that holds further cards by color, and marks that are an alias of an alias of a set. -/
def card : Object :=
  let colors : TypeRef := .map (.declared ⟨"deck", "Color"⟩) (.list (.declared ⟨"deck", "Card"⟩))
  ⟨⟨"deck", "Card"⟩, [⟨"marks", .declared ⟨"deck", "Marks"⟩, none, none⟩,
    ⟨"below", colors, none, none⟩], none⟩

/-- The card with the types that it mentions. -/
def deck : Document :=
  ⟨1, [.object card, .enum ⟨⟨"deck", "Color"⟩, [⟨"RED", none⟩], none⟩,
    .alias ⟨⟨"deck", "Marks"⟩, .declared ⟨"deck", "Tags"⟩, none⟩,
    .alias ⟨⟨"deck", "Tags"⟩, .set (.primitive .string), none⟩]⟩

/-- The card is ordered, and both its fields are collections: all that it holds has an order and a
default. -/
theorem derived_traits_satisfiable_deck :
    ∃ c, Contract.ofDocument deck = .ok c ∧ c.isOrderable card.name = true ∧
      (card.fields.all fun f => isDefaulted c f.type) = true ∧
      ∀ x ∈ definitions c (.object card), x.slots.length = 2 ∧
        ∀ slot ∈ x.slots, slot.HasOrder c ∧ slot.HasDefault c := by
  obtain ⟨c, hc⟩ : ∃ c, Contract.ofDocument deck = .ok c := Outcome.exists_ok_of_isOk <|
    Contract.isOk_of_ranked (fun _ => 0) (by decide) rfl rfl (by decide)
  have hreg := Contract.registry_of_sorted hc (by decide)
  have horder : c.isOrderable card.name = true := by
    rw [Contract.isOrderable, (Contract.of_ofDocument hc).orderable, hreg]
    rfl
  have hdefault : (card.fields.all fun f => isDefaulted c f.type) = true := by
    simp only [isDefaulted, hreg]
    rfl
  refine ⟨c, hc, horder, hdefault, fun x hx => ?_⟩
  obtain ⟨hhas, -, -, hdefaulted⟩ :=
    (derived_traits_satisfiable deck c hc (.object card) List.mem_cons_self).2 x hx
  obtain rfl := List.mem_singleton.1 hx
  refine ⟨rfl, fun slot hslot => ⟨?_, hdefaulted slot ?_⟩⟩
  · refine hhas (.ofWords ["Eq"]) List.mem_cons_self ?_ slot hslot
    exact horder ▸ orderTraits_subset_derivedTraits false true List.mem_cons_self
  · rwa [List.filter_eq_self.2 (List.all_eq_true.1 hdefault)]

end WireContract.Emit
