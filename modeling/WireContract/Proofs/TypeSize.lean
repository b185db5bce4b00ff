import WireContract.Emit.Package
import WireContract.Proofs.Boxing

/-!
# Every emitted type has finite size

A type that stored itself outside every pointer and collection would have no finite size.  To say
that none does, the emitted types are read as a graph.  `Declaration.emits` lists the types that a
declaration becomes, each with what its slots hold; that these are the types of the emitted items,
slot by slot, is `typeDefs_items`.  `Stores` relates a type to those that its slots store in place,
and it has no cycle (`not_stores_cycle`).

The emitters pass the flag of the boxed slots for aliases, objects and unions, and never for the
parameters of errors.  Nothing refers to an error, so no cycle goes through one, and a cycle of the
other types would run back to the owner of a slot that is then boxed.
-/

namespace WireContract.Emit

open Rust Schema Relation

/-! ## The types of emitted items -/

/-- A type definition among the items of a file: its name and the types of its slots. -/
def typeDef? : Item → Option (Ident × List Ty)
  | .struct _ _ name .unit => some (name, [])
  | .struct _ _ name (.single t) => some (name, [t])
  | .struct _ _ name (.named fields) => some (name, fields.map (·.type))
  | .enum _ name variants => some (name, variants.filterMap (·.type))
  | _ => none

/-- The type emitted for a declaration, or for the parameters of an error. -/
inductive EmittedType where
  | declared (name : QualifiedName)
  | parameters (error : QualifiedName)
deriving DecidableEq, Repr

/-- The identifier of an emitted type in its file. -/
def EmittedType.ident : EmittedType → Ident
  | .declared q => .ofName q.name
  | .parameters q => .companion q.name parametersSuffix

/-- What a slot of an emitted type holds. -/
inductive Held where
  | stored (form : Stored)
  /-- The parameters of an error, if they could be read. -/
  | parameters (error : QualifiedName)
  /-- A type of the runtime library. -/
  | library (words : List String)
deriving DecidableEq, Repr

/-- The type of a slot, in a file. -/
def Held.type (scope : Scope) : Held → Ty
  | .stored form => form.type scope.imports scope.runtime
  | .parameters q => .apply "Option" [.ofPath (.ofIdent (.companion q.name parametersSuffix))]
  | .library words => scope.libType words

/-- The types emitted for a declaration, each with what its slots hold. -/
def emittedTypes (c : Contract) : Declaration → List (EmittedType × List Held)
  | .alias a => [(.declared a.name, [.stored (a.target.stored (c.isBoxed a.name ""))])]
  | .enum e => [(.declared e.name, [.library ["enums", "UnknownValue"]])]
  | .object o =>
    [(.declared o.name, o.fields.map fun f => .stored (f.type.stored (c.isBoxed o.name f.name)))]
  | .union u =>
    [(.declared u.name,
      u.members.map (fun m => .stored (m.type.stored (c.isBoxed u.name m.tag))) ++
        [.library ["union", "UnknownMember"]])]
  | .error e =>
    [(.parameters e.name, e.params.map fun p => .stored (p.type.stored false)),
     (.declared e.name, [.library ["uuid", "Uuid"], .parameters e.name])]

/-- The items of a declaration define the types emitted for it and no others; the file of visitors
defines none. -/
lemma typeDefs_items {scope : Scope} {server : Bool} {g : Group} {d : Declaration}
    (hg : g.has d = true) :
    (g.items scope server d).filterMap typeDef? =
      if g = .visitors then []
      else (emittedTypes scope.contract d).map fun (t, held) =>
        (t.ident, held.map (Held.type scope)) := by
  cases d with
  | «alias» a =>
    cases g with
    | aliases =>
      simp [Group.items, aliasItems, typeDef?, emittedTypes, targetType, EmittedType.ident,
        Held.type, Scope.stored]
    | _ => cases hg
  | enum e =>
    cases g with
    | enums =>
      simp [Group.items, enumItems, typeDef?, emittedTypes, enumVariants, EmittedType.ident,
        Held.type, displayImpl, serializeImpl, deserializeImpl]
    | _ => cases hg
  | object o =>
    cases g with
    | objects =>
      simp [Group.items, objectItems, typeDef?, emittedTypes, objectFields, fieldOf,
        EmittedType.ident, Held.type, Scope.stored]
    | _ => cases hg
  | union u =>
    cases g with
    | unions =>
      simp [Group.items, unionItems, typeDef?, emittedTypes, unionVariants, EmittedType.ident,
        Held.type, Scope.stored, serializeImpl, deserializeImpl]
    | visitors => simp [Group.items, visitorItems, typeDef?]
    | _ => cases hg
  | error e =>
    cases g with
    | errors =>
      have hserver : (if server then serverItems scope (ownType e.name.name) else []).filterMap
          typeDef? = [] := by
        cases server <;> simp [serverItems, typeDef?]
      have hitems : Group.errors.items scope server (.error e) = errorItems scope server e := rfl
      rw [hitems, errorItems, List.filterMap_append, hserver]
      simp [typeDef?, emittedTypes, parametersItem, paramFields, fieldOf, EmittedType.ident,
        Held.type, Scope.stored, instanceType, holderInterface, holderCodec, displayImpl,
        serializeImpl, deserializeImpl]
    | _ => cases hg

/-! ## Storing in place -/

/-- The declared types that a stored form holds outside every pointer and collection. -/
def Stored.inPlace : Stored → List QualifiedName
  | .option content => content.inPlace
  | .named q => [q]
  | .primitive _ | .binary | .vec _ | .set _ | .map _ _ | .boxed _ => []

/-- The emitted types that a slot holds outside every pointer and collection. -/
def Held.inPlace : Held → List EmittedType
  | .stored form => form.inPlace.map .declared
  | .parameters q => [.parameters q]
  | .library _ => []

/-- An emitted type stores another outside every pointer and collection. -/
def Stores (c : Contract) (t u : EmittedType) : Prop :=
  ∃ d ∈ c.registry.declarations, ∃ held, (t, held) ∈ emittedTypes c d ∧ ∃ h ∈ held, u ∈ h.inPlace

/-- A boxed slot stores nothing in place. -/
lemma inPlace_stored_true (r : TypeRef) : (r.stored true).inPlace = [] := by
  induction r with
  | optional inner ih | external q inner ih => exact ih
  | primitive | binary | list | set | map | declared => rfl

/-- A slot without a box stores in place what its reference holds. -/
lemma mem_inPlace_stored_false {r : TypeRef} {q : QualifiedName} :
    q ∈ (r.stored false).inPlace ↔ r.HoldsInPlace q := by
  constructor
  · intro h
    induction r with
    | declared q' =>
      obtain rfl := List.mem_singleton.1 h
      exact .declared q
    | optional inner ih => exact .optional (ih h)
    | external name inner ih => exact .external name (ih h)
    | primitive | binary | list | set | map => exact (List.not_mem_nil h).elim
  · intro h
    induction h with
    | declared q => exact List.mem_singleton_self q
    | optional _ ih => exact ih
    | external _ _ ih => exact ih

/-- What a slot stores in place, its reference holds, and the slot has no box. -/
lemma holdsInPlace_of_mem_inPlace {r : TypeRef} {boxed : Bool} {q : QualifiedName}
    (h : q ∈ (r.stored boxed).inPlace) : boxed = false ∧ r.HoldsInPlace q := by
  cases boxed with
  | true =>
    rw [inPlace_stored_true] at h
    exact (List.not_mem_nil h).elim
  | false => exact ⟨rfl, mem_inPlace_stored_false.1 h⟩

/-! ## No type stores itself -/

/-- How an emitted type can store another: an error stores its parameters, these store what their
references hold, and every other type stores what its slots without a box hold. -/
inductive StoresBy (c : Contract) : EmittedType → EmittedType → Prop where
  | slot {d : Declaration} {member : String} {r : TypeRef} {q : QualifiedName}
      (hd : d ∈ c.registry.declarations) (hkind : d.kind ≠ .error)
      (hr : (member, r) ∈ d.references) (hbox : c.isBoxed d.name member = false)
      (hq : r.HoldsInPlace q) : StoresBy c (.declared d.name) (.declared q)
  | parameter {e : ErrorDecl} {q : QualifiedName} (he : .error e ∈ c.registry.declarations)
      (hq : HeldIn c.registry.declarations e.name q) : StoresBy c (.parameters e.name) (.declared q)
  | holder {e : ErrorDecl} (he : .error e ∈ c.registry.declarations) :
      StoresBy c (.declared e.name) (.parameters e.name)

variable {c : Contract}

lemma storesBy_of_stored {d : Declaration} {member : String} {r : TypeRef} {u : EmittedType}
    (hd : d ∈ c.registry.declarations) (hkind : d.kind ≠ .error)
    (hr : (member, r) ∈ d.references)
    (hu : u ∈ (Held.stored (r.stored (c.isBoxed d.name member))).inPlace) :
    StoresBy c (.declared d.name) u := by
  obtain ⟨q, hq, rfl⟩ := List.mem_map.1 hu
  obtain ⟨hbox, hheld⟩ := holdsInPlace_of_mem_inPlace hq
  exact .slot hd hkind hr hbox hheld

lemma storesBy_of_stores {t u : EmittedType} (h : Stores c t u) : StoresBy c t u := by
  obtain ⟨d, hd, held, hheld, x, hx, hu⟩ := h
  cases d with
  | «alias» a =>
    obtain ⟨rfl, rfl⟩ := Prod.mk.inj (List.mem_singleton.1 hheld)
    obtain rfl := List.mem_singleton.1 hx
    exact storesBy_of_stored hd (by simp [Declaration.kind]) (List.mem_singleton_self _) hu
  | enum e =>
    obtain ⟨rfl, rfl⟩ := Prod.mk.inj (List.mem_singleton.1 hheld)
    obtain rfl := List.mem_singleton.1 hx
    exact (List.not_mem_nil hu).elim
  | object o =>
    obtain ⟨rfl, rfl⟩ := Prod.mk.inj (List.mem_singleton.1 hheld)
    obtain ⟨f, hf, rfl⟩ := List.mem_map.1 hx
    exact storesBy_of_stored hd (by simp [Declaration.kind])
      (List.mem_map.2 ⟨f, hf, rfl⟩ : (f.name, f.type) ∈ _) hu
  | union v =>
    obtain ⟨rfl, rfl⟩ := Prod.mk.inj (List.mem_singleton.1 hheld)
    rcases List.mem_append.1 hx with hx | hx
    · obtain ⟨m, hm, rfl⟩ := List.mem_map.1 hx
      exact storesBy_of_stored hd (by simp [Declaration.kind])
        (List.mem_map.2 ⟨m, hm, rfl⟩ : (m.tag, m.type) ∈ _) hu
    · obtain rfl := List.mem_singleton.1 hx
      exact (List.not_mem_nil hu).elim
  | error e =>
    simp only [emittedTypes, List.mem_cons, Prod.mk.injEq, List.not_mem_nil, or_false] at hheld
    rcases hheld with ⟨rfl, rfl⟩ | ⟨rfl, rfl⟩
    · obtain ⟨p, hp, rfl⟩ := List.mem_map.1 hx
      obtain ⟨q, hq, rfl⟩ := List.mem_map.1 hu
      obtain ⟨-, hheld⟩ := holdsInPlace_of_mem_inPlace hq
      exact .parameter hd ⟨_, hd, rfl, p.name, p.type, List.mem_map.2 ⟨p, hp, rfl⟩, hheld⟩
    · simp only [List.mem_cons, List.not_mem_nil, or_false] at hx
      rcases hx with rfl | rfl
      · exact (List.not_mem_nil hu).elim
      · obtain rfl := List.mem_singleton.1 hu
        exact .holder hd

/-- A declared type that is stored is no error. -/
lemma StoresBy.isType (htypes : c.registry.TypesOnly) {t : EmittedType} {q : QualifiedName}
    (h : StoresBy c t (.declared q)) :
    ∃ d ∈ c.registry.declarations, d.name = q ∧ d.kind ≠ .error := by
  cases h with
  | slot hd _ hr _ hq => exact htypes q ⟨_, hd, _, _, hr, hq.mem_subterms⟩
  | parameter _ hq => exact htypes q hq.occurs

/-- From a type that is no error, storing leads to types that are held, and never to an error. -/
lemma storesBy_walk (hindexed : c.registry.Indexed) (htypes : c.registry.TypesOnly)
    {a : QualifiedName} {t : EmittedType}
    (ha : ∃ d ∈ c.registry.declarations, d.name = a ∧ d.kind ≠ .error)
    (h : ReflTransGen (StoresBy c) (.declared a) t) :
    ∃ b, t = .declared b ∧ ReflTransGen (HeldIn c.registry.declarations) a b ∧
      ∃ d ∈ c.registry.declarations, d.name = b ∧ d.kind ≠ .error := by
  induction h with
  | refl => exact ⟨a, rfl, .refl, ha⟩
  | tail _ hstep ih =>
    obtain ⟨b, rfl, hab, d, hd, hname, hkind⟩ := ih
    generalize hb : EmittedType.declared b = source at hstep
    cases hstep with
    | @slot d' member r q hd' hkind' hr hbox hq =>
      obtain rfl := EmittedType.declared.inj hb
      exact ⟨q, rfl, hab.tail ⟨d', hd', rfl, member, r, hr, hq⟩,
        (StoresBy.slot hd' hkind' hr hbox hq).isType htypes⟩
    | parameter => cases hb
    | @holder e he =>
      have hbe : b = e.name := EmittedType.declared.inj hb
      have hde : d = .error e := hindexed.eq_of_name_eq hd he (hname.trans hbe)
      rw [hde] at hkind
      exact (hkind rfl).elim

/-- A type on a cycle of storing is a declared type and no error. -/
lemma storesBy_cycle_declared (hindexed : c.registry.Indexed) (htypes : c.registry.TypesOnly)
    {t : EmittedType} (h : TransGen (StoresBy c) t t) :
    ∃ a, t = .declared a ∧ ∃ d ∈ c.registry.declarations, d.name = a ∧ d.kind ≠ .error := by
  cases t with
  | declared a =>
    obtain ⟨u, -, hu⟩ := TransGen.tail'_iff.1 h
    exact ⟨a, rfl, hu.isType htypes⟩
  | parameters a =>
    -- parameters are stored by their error only, and nothing stores an error
    obtain ⟨u, hto, hu⟩ := TransGen.tail'_iff.1 h
    cases hu with
    | @holder e he =>
      rcases reflTransGen_iff_eq_or_transGen.1 hto with heq | hto
      · cases heq
      · obtain ⟨v, -, hv⟩ := TransGen.tail'_iff.1 hto
        obtain ⟨d, hd, hname, hkind⟩ := hv.isType htypes
        have hde : d = .error e := hindexed.eq_of_name_eq hd he hname
        rw [hde] at hkind
        exact (hkind rfl).elim

/-- No emitted type stores itself in place, at any depth: the slot that a cycle starts from would
be boxed. -/
lemma not_stores_cycle (hindexed : c.registry.Indexed) (htypes : c.registry.TypesOnly)
    (hboxed : c.boxed = c.registry.boxedSlots) (t : EmittedType) :
    ¬ TransGen (Stores c) t t := by
  intro hcycle
  have hby : TransGen (StoresBy c) t t := TransGen.mono (fun _ _ => storesBy_of_stores) _ _ hcycle
  obtain ⟨a, rfl, d, hd, rfl, hkind⟩ := storesBy_cycle_declared hindexed htypes hby
  obtain ⟨u, hfirst, hback⟩ := TransGen.head'_iff.1 hby
  generalize hsource : EmittedType.declared d.name = source at hfirst
  cases hfirst with
  | @slot d' member r q hd' hkind' hr hbox hq =>
    have hname : d.name = d'.name := EmittedType.declared.inj hsource
    have hqtype := (StoresBy.slot hd' hkind' hr hbox hq).isType htypes
    obtain ⟨b, hb, hway, -⟩ := storesBy_walk hindexed htypes hqtype hback
    have hboxed' : (d'.name, member) ∈ c.registry.boxedSlots := by
      refine (hindexed.mem_boxedSlots_iff htypes).2 ⟨d', hd', rfl, r, hr, q, hq, ?_⟩
      rwa [← hname, EmittedType.declared.inj hb]
    rw [Contract.isBoxed, hboxed, ← Bool.not_eq_true, List.contains_iff_mem] at hbox
    exact hbox hboxed'
  | parameter => cases hsource
  | @holder e he =>
    have hde : d = .error e := hindexed.eq_of_name_eq hd he (EmittedType.declared.inj hsource)
    rw [hde] at hkind
    exact hkind rfl

/-- In a contract, a slot is boxed exactly if the type that it holds in place can get back to the
owner, which is then of the same module; no other slot is.  With these boxes the types of the
emitted items store each other without a cycle. -/
theorem boxed_slots_break_cycles (doc : Document) (c : Contract)
    (h : Contract.ofDocument doc = .ok c) :
    (∀ d ∈ doc.declarations, ∀ member r, (member, r) ∈ d.references →
      (c.isBoxed d.name member = true ↔
        ∃ q, r.HoldsInPlace q ∧ ReflTransGen (HeldIn doc.declarations) q d.name) ∧
      (c.isBoxed d.name member = true → ∀ q, r.HoldsInPlace q → q.module = d.name.module)) ∧
    (∀ owner member, c.isBoxed owner member = true →
      ∃ d ∈ doc.declarations, d.name = owner ∧ ∃ r, (member, r) ∈ d.references) ∧
    (∀ d ∈ doc.declarations, ∀ g : Group, g.has d = true →
      ∀ scope : Scope, scope.contract = c → ∀ server,
        (g.items scope server d).filterMap typeDef? =
          if g = .visitors then []
          else (emittedTypes c d).map fun (t, held) => (t.ident, held.map (Held.type scope))) ∧
    ∀ t, ¬ TransGen (Stores c) t t := by
  have hof := Contract.of_ofDocument h
  refine ⟨fun d hd member r hr => ⟨hof.isBoxed_slot_iff hd hr, fun hbox q hq => ?_⟩, ?_, ?_, ?_⟩
  · exact hof.module_eq_of_isBoxed hd hr hbox hq
  · intro owner member hbox
    obtain ⟨d, hd, hname, r, hr, -⟩ := hof.isBoxed_iff.1 hbox
    exact ⟨d, hd, hname, r, hr⟩
  · rintro d - g hg scope rfl server
    exact typeDefs_items hg
  · exact not_stores_cycle hof.indexed hof.lawful.declared hof.boxed

/-- A union and an object that hold each other, through an optional and in a list. -/
def mutualTrees : Document :=
  let tree : QualifiedName := ⟨"demo", "Tree"⟩
  let pair : QualifiedName := ⟨"demo", "Pair"⟩
  ⟨1, [.union ⟨tree, [⟨"pair", .optional (.declared pair), none⟩], none⟩,
    .object ⟨pair, [⟨"left", .declared tree, none, none⟩,
      ⟨"rest", .list (.declared tree), none, none⟩], none⟩]⟩

/-- Both slots that hold the other type in place are boxed, the list is not, and no type stores
itself. -/
theorem boxed_slots_break_cycles_mutualTrees :
    ∃ c, Contract.ofDocument mutualTrees = .ok c ∧
      c.isBoxed ⟨"demo", "Tree"⟩ "pair" = true ∧ c.isBoxed ⟨"demo", "Pair"⟩ "left" = true ∧
      c.isBoxed ⟨"demo", "Pair"⟩ "rest" = false ∧ ∀ t, ¬ TransGen (Stores c) t t := by
  have hok : (Contract.ofDocument mutualTrees).isOk = true :=
    Contract.isOk_of_ranked (fun _ => 0) (by decide) rfl rfl (by decide)
  obtain ⟨c, hc⟩ := Outcome.exists_ok_of_isOk hok
  obtain ⟨hslots, -, -, hcycle⟩ := boxed_slots_break_cycles mutualTrees c hc
  refine ⟨c, hc, ?_, ?_, ?_, hcycle⟩
  · refine (hslots _ List.mem_cons_self _ _ List.mem_cons_self).1.2
      ⟨⟨"demo", "Pair"⟩, .optional (.declared _), .single ?_⟩
    exact ⟨_, List.mem_cons_of_mem _ List.mem_cons_self, rfl, _, _, List.mem_cons_self,
      .declared _⟩
  · refine (hslots _ (List.mem_cons_of_mem _ List.mem_cons_self) _ _ List.mem_cons_self).1.2
      ⟨⟨"demo", "Tree"⟩, .declared _, .single ?_⟩
    exact ⟨_, List.mem_cons_self, rfl, _, _, List.mem_cons_self, .optional (.declared _)⟩
  · rw [← Bool.not_eq_true]
    intro hbox
    obtain ⟨q, hq, -⟩ := (hslots _ (List.mem_cons_of_mem _ List.mem_cons_self) _ _
      (List.mem_cons_of_mem _ List.mem_cons_self)).1.1 hbox
    cases hq

end WireContract.Emit
