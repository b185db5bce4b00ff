import WireContract.Proofs.Acceptance

/-!
# Which slots are boxed

A reference holds a declared type in place directly, through an optional, or through the fallback of
an external name; items and entries of collections are held elsewhere.  `HeldIn` is the relation
between declared types that this gives.

In a lawful document a slot is boxed exactly if the type that it holds in place can get back to the
owner (`mem_boxedSlots_iff`).  Such a type is of the owner's module, since a way that left the
module would close a cycle of modules.
-/

namespace WireContract.Schema

open Relation WireContract.Graph

/-- The reference holds the declared type in place. -/
inductive TypeRef.HoldsInPlace : TypeRef → QualifiedName → Prop where
  | declared (q : QualifiedName) : HoldsInPlace (.declared q) q
  | optional {r : TypeRef} {q : QualifiedName} (h : HoldsInPlace r q) : HoldsInPlace (.optional r) q
  | external {r : TypeRef} {q : QualifiedName} (name : QualifiedName) (h : HoldsInPlace r q) :
      HoldsInPlace (.external name r) q

/-- A type holds another in place, in one of its slots. -/
def HeldIn (ds : List Declaration) (a b : QualifiedName) : Prop :=
  ∃ d ∈ ds, d.name = a ∧ ∃ member r, (member, r) ∈ d.references ∧ r.HoldsInPlace b

namespace TypeRef

lemma heldByValue_eq_some_iff {r : TypeRef} {q : QualifiedName} :
    r.heldByValue = some q ↔ r.HoldsInPlace q := by
  constructor
  · intro h
    induction r with
    | declared q' =>
      obtain rfl := Option.some.inj h
      exact .declared q'
    | optional inner ih => exact .optional (ih h)
    | external name inner ih => exact .external name (ih h)
    | primitive | binary | list | set | map => cases h
  · intro h
    induction h with
    | declared q => rfl
    | optional _ ih => exact ih
    | external _ _ ih => exact ih

/-- A reference holds at most one type in place. -/
lemma HoldsInPlace.unique {r : TypeRef} {p q : QualifiedName} (hp : r.HoldsInPlace p)
    (hq : r.HoldsInPlace q) : p = q := by
  rw [← heldByValue_eq_some_iff] at hp hq
  exact Option.some.inj (hp.symm.trans hq)

lemma HoldsInPlace.mem_subterms {r : TypeRef} {q : QualifiedName} (h : r.HoldsInPlace q) :
    .declared q ∈ r.subterms := by
  induction h with
  | declared q => exact self_mem_subterms _
  | optional _ ih => exact List.mem_cons_of_mem _ ih
  | external _ _ ih => exact List.mem_cons_of_mem _ ih

end TypeRef

lemma HeldIn.occurs {ds : List Declaration} {a b : QualifiedName} (h : HeldIn ds a b) :
    Occurs ds (.declared b) := by
  obtain ⟨d, hd, -, member, r, hr, hb⟩ := h
  exact ⟨d, hd, member, r, hr, hb.mem_subterms⟩

/-! ## Holding in place, computed -/

namespace Registry

variable {reg : Registry}

/-- Every name in a reference is declared as a type. -/
def TypesOnly (reg : Registry) : Prop :=
  ∀ q, Occurs reg.declarations (.declared q) →
    ∃ d ∈ reg.declarations, d.name = q ∧ d.kind ≠ .error

lemma Indexed.isType_of_occurs (hreg : reg.Indexed) (htypes : reg.TypesOnly) {q : QualifiedName}
    (hq : Occurs reg.declarations (.declared q)) : reg.isType q = true := by
  obtain ⟨d, hd, hname, hkind⟩ := htypes q hq
  rw [isType, hreg.get?_eq_some_iff.2 ⟨hd, hname⟩]
  simpa using hkind

/-- The held types of a reference that occurs are those it holds in place. -/
lemma Indexed.mem_heldTypes_iff (hreg : reg.Indexed) (htypes : reg.TypesOnly) {r : TypeRef}
    (hr : Occurs reg.declarations r) {q : QualifiedName} :
    q ∈ reg.heldTypes r ↔ r.HoldsInPlace q := by
  rw [heldTypes, List.mem_filter, Option.mem_toList, TypeRef.heldByValue_eq_some_iff]
  refine ⟨fun h => h.1, fun h => ⟨h, ?_⟩⟩
  exact hreg.isType_of_occurs htypes (hr.part h.mem_subterms)

lemma Indexed.step_heldBy_iff (hreg : reg.Indexed) (htypes : reg.TypesOnly)
    {a b : QualifiedName} : Step reg.heldBy a b ↔ HeldIn reg.declarations a b := by
  rw [Step, heldBy]
  cases hget : reg.get? a with
  | none =>
    have hnone := get?_eq_none_iff.1 hget
    simp only [List.not_mem_nil, false_iff]
    rintro ⟨d, hd, hname, -⟩
    exact hnone d hd hname
  | some d =>
    obtain ⟨hd, rfl⟩ := mem_of_get? hget
    have hoccurs : ∀ member r, (member, r) ∈ d.references → Occurs reg.declarations r :=
      fun member r hr => ⟨d, hd, member, r, hr, TypeRef.self_mem_subterms r⟩
    simp only [List.mem_flatMap, Prod.exists]
    constructor
    · rintro ⟨member, r, hr, hb⟩
      exact ⟨d, hd, rfl, member, r, hr,
        (hreg.mem_heldTypes_iff htypes (hoccurs member r hr)).1 hb⟩
    · rintro ⟨e, he, hname, member, r, hr, hb⟩
      obtain rfl := hreg.eq_of_name_eq he hd hname
      exact ⟨member, r, hr, (hreg.mem_heldTypes_iff htypes (hoccurs member r hr)).2 hb⟩

/-- The bounded search decides whether a type holds another at any depth. -/
lemma Indexed.holds_iff (hreg : reg.Indexed) (htypes : reg.TypesOnly) {a b : QualifiedName} :
    reg.holds a b = true ↔ ReflTransGen (HeldIn reg.declarations) a b := by
  have hstep : Step reg.heldBy = HeldIn reg.declarations := by
    funext a b
    exact propext (hreg.step_heldBy_iff htypes)
  have hsub : ∀ a, reg.heldBy a ⊆ reg.declarations.map Declaration.name := by
    intro a b hb
    obtain ⟨d, hd, rfl, -⟩ := htypes b ((hreg.step_heldBy_iff htypes).1 hb).occurs
    exact List.mem_map_of_mem hd
  rw [holds, Bool.or_eq_true, beq_iff_eq,
    reaches_iff (fun a _ => hsub a) (by simp [size]) (hsub a), hstep,
    reflTransGen_iff_eq_or_transGen, eq_comm]

/-! ## The boxed slots -/

/-- No reference mentions an error, so nothing holds one in place. -/
lemma Indexed.not_heldIn_error (hreg : reg.Indexed) (htypes : reg.TypesOnly) {a : QualifiedName}
    {d : Declaration} (hd : d ∈ reg.declarations) (hkind : d.kind = .error) :
    ¬ HeldIn reg.declarations a d.name := by
  intro h
  obtain ⟨e, he, hname, hne⟩ := htypes _ h.occurs
  obtain rfl := hreg.eq_of_name_eq he hd hname
  exact hne hkind

lemma Indexed.mem_boxedSlots_iff (hreg : reg.Indexed) (htypes : reg.TypesOnly)
    {owner : QualifiedName} {member : String} :
    (owner, member) ∈ reg.boxedSlots ↔
      ∃ d ∈ reg.declarations, d.name = owner ∧ ∃ r, (member, r) ∈ d.references ∧
        ∃ q, r.HoldsInPlace q ∧ ReflTransGen (HeldIn reg.declarations) q owner := by
  simp only [boxedSlots, List.mem_flatMap, List.mem_filter, List.mem_map, List.any_eq_true,
    Prod.exists, Prod.mk.injEq, bne_iff_ne, ne_eq]
  constructor
  · rintro ⟨d, ⟨hd, -⟩, m, r, ⟨hr, q, hq, hback⟩, rfl, rfl⟩
    have hoccurs : Occurs reg.declarations r := ⟨d, hd, m, r, hr, TypeRef.self_mem_subterms r⟩
    exact ⟨d, hd, rfl, r, hr, q, (hreg.mem_heldTypes_iff htypes hoccurs).1 hq,
      (hreg.holds_iff htypes).1 hback⟩
  · rintro ⟨d, hd, rfl, r, hr, q, hq, hback⟩
    have hoccurs : Occurs reg.declarations r := ⟨d, hd, member, r, hr, TypeRef.self_mem_subterms r⟩
    -- an error is held by nothing, so the way back from its slot cannot exist
    have hkind : d.kind ≠ .error := by
      intro hkind
      have hheld : HeldIn reg.declarations d.name q := ⟨d, hd, rfl, member, r, hr, hq⟩
      obtain ⟨a, -, ha⟩ := TransGen.tail'_iff.1 (TransGen.head' hheld hback)
      exact hreg.not_heldIn_error htypes hd hkind ha
    exact ⟨d, ⟨hd, hkind⟩, member, r, ⟨hr, q, (hreg.mem_heldTypes_iff htypes hoccurs).2 hq,
      (hreg.holds_iff htypes).2 hback⟩, rfl, rfl⟩

end Registry

/-! ## Slots of lawful documents -/

/-- In a well-formed declaration a member has one reference. -/
lemma Declaration.WellFormed.reference_unique {d : Declaration} (hd : d.WellFormed)
    {member : String} {r s : TypeRef} (hr : (member, r) ∈ d.references)
    (hs : (member, s) ∈ d.references) : r = s := by
  have hnodup : (d.references.map Prod.fst).Nodup := by
    have hmembers := hd.members
    cases d with
    | «alias» a => exact List.nodup_singleton _
    | enum e => exact List.nodup_nil
    | object o =>
      rw [Declaration.references, List.map_map]
      exact hmembers.distinct.of_map
    | union u =>
      rw [Declaration.references, List.map_map]
      exact hmembers.2.1.distinct.of_map
    | error e =>
      rw [Declaration.references, List.map_map]
      exact hmembers.2.distinct.of_map
  exact congrArg Prod.snd (List.inj_on_of_nodup_map hnodup hr hs rfl)

/-- What types hold does not depend on the order of declarations. -/
lemma heldIn_perm {ds ds' : List Declaration} (hperm : ds.Perm ds') : HeldIn ds = HeldIn ds' := by
  funext a b
  simp only [HeldIn, hperm.mem_iff]

/-- Holding in place stays in the module or follows a dependency of modules. -/
lemma HeldIn.moduleDepends {ds : List Declaration} {a b : QualifiedName} (h : HeldIn ds a b) :
    ReflTransGen (ModuleDepends ds) a.module b.module := by
  obtain ⟨d, hd, rfl, member, r, hr, hb⟩ := h
  by_cases hsame : d.name.module = b.module
  · rw [hsame]
  · exact .single ⟨hsame, d, hd, b, ⟨member, r, hr, hb.mem_subterms⟩, rfl, rfl⟩

/-- Types that hold each other are of one module. -/
lemma Lawful.module_eq_of_heldIn {ds : List Declaration} (h : Lawful ds) {a b : QualifiedName}
    (hab : HeldIn ds a b) (hba : ReflTransGen (HeldIn ds) b a) : b.module = a.module := by
  have hback : ReflTransGen (ModuleDepends ds) b.module a.module :=
    ReflTransGen.lift' QualifiedName.module (fun _ _ => HeldIn.moduleDepends) b a hba
  rcases reflTransGen_iff_eq_or_transGen.1 hab.moduleDepends with heq | hto
  · exact heq
  · exact (h.modules a.module (hto.trans_left hback)).elim

/-! ## The slots of a contract -/

namespace Contract

variable {c : Contract} {doc : Document}

lemma Of.isBoxed_iff (h : c.Of doc) {owner : QualifiedName} {member : String} :
    c.isBoxed owner member = true ↔
      ∃ d ∈ doc.declarations, d.name = owner ∧ ∃ r, (member, r) ∈ d.references ∧
        ∃ q, r.HoldsInPlace q ∧ ReflTransGen (HeldIn doc.declarations) q owner := by
  rw [isBoxed, h.boxed, List.contains_iff_mem, h.indexed.mem_boxedSlots_iff h.lawful.declared,
    heldIn_perm h.perm]
  simp only [h.perm.mem_iff]

/-- A slot is boxed exactly if the type that it holds in place can get back to its owner. -/
lemma Of.isBoxed_slot_iff (h : c.Of doc) {d : Declaration} (hd : d ∈ doc.declarations)
    {member : String} {r : TypeRef} (hr : (member, r) ∈ d.references) :
    c.isBoxed d.name member = true ↔
      ∃ q, r.HoldsInPlace q ∧ ReflTransGen (HeldIn doc.declarations) q d.name := by
  rw [h.isBoxed_iff]
  constructor
  · rintro ⟨e, he, hname, s, hs, hback⟩
    have hd' : d ∈ c.registry.declarations := h.perm.mem_iff.2 hd
    obtain rfl := h.indexed.eq_of_name_eq (h.perm.mem_iff.2 he) hd' hname
    rwa [(h.lawful.wellFormed e hd').reference_unique hr hs]
  · intro hback
    exact ⟨d, hd, rfl, r, hr, hback⟩

/-- The owner and the target of a boxed slot are of one module. -/
lemma Of.module_eq_of_isBoxed (h : c.Of doc) {d : Declaration} (hd : d ∈ doc.declarations)
    {member : String} {r : TypeRef} (hr : (member, r) ∈ d.references)
    (hbox : c.isBoxed d.name member = true) {q : QualifiedName} (hq : r.HoldsInPlace q) :
    q.module = d.name.module := by
  obtain ⟨p, hp, hback⟩ := (h.isBoxed_slot_iff hd hr).1 hbox
  obtain rfl := hp.unique hq
  exact (h.lawful.perm h.perm).module_eq_of_heldIn ⟨d, hd, rfl, member, r, hr, hp⟩ hback

end Contract

end WireContract.Schema
