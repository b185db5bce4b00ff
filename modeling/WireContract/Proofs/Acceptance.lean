import WireContract.Proofs.Chains
import WireContract.Proofs.DeclarationRules
import WireContract.Proofs.ModuleCycles
import WireContract.Proofs.Orderable
import WireContract.Schema.Contract

/-!
# Which documents are contracts

The checks of a document run one after another and stop at the first fault.  Together they are a
list of rules about its declarations, each said without the checks: `Lawful`.  A document becomes a
contract exactly if its declarations are lawful, so no order of the checks, no bound of a walk and
no round of a search decides.

The rules speak of membership only.  Whether declarations are lawful therefore does not depend on
their order (`Lawful.perm`), which is what lets the checks look at the sorted registry and the rules
at the document.
-/

namespace WireContract.Schema

open Relation Outcome

/-! ## The rules -/

/-- A type whose values have no total order of their own: numbers in floating point, arbitrary
values, and unions. -/
inductive Unordered (ds : List Declaration) : TypeRef → Prop where
  | double : Unordered ds (.primitive .double)
  | any : Unordered ds (.primitive .any)
  | union {u : Union} (hu : .union u ∈ ds) : Unordered ds (.declared u.name)

/-- No chain of references leads to a type without an order. -/
def OrderedThroughout (ds : List Declaration) (r : TypeRef) : Prop :=
  ∀ t, Chain ds r t → ¬ Unordered ds t

/-- The rules for the declarations of a document. -/
structure Lawful (ds : List Declaration) : Prop where
  /-- Every declaration is well formed by itself. -/
  wellFormed : ∀ d ∈ ds, d.WellFormed
  /-- No two declarations share a name. -/
  distinct : (ds.map Declaration.name).Nodup
  /-- Every name in a reference is declared, and not as an error. -/
  declared : ∀ q, Occurs ds (.declared q) → ∃ d ∈ ds, d.name = q ∧ d.kind ≠ .error
  /-- No alias comes back to itself by targets that are names. -/
  aliases : ∀ q, ¬ TransGen (AliasStep ds) q q
  /-- The items of sets have an order. -/
  items : ∀ item, Occurs ds (.set item) → OrderedThroughout ds item
  /-- The keys of maps have an order, and can be keys of a JSON object. -/
  keys : ∀ key value, Occurs ds (.map key value) → OrderedThroughout ds key ∧ EndsAtKey ds key
  /-- No declaration has the name of a type that is generated beside a union. -/
  visitors : ∀ u, .union u ∈ ds → ∀ d ∈ ds,
    d.name ≠ ⟨u.name.module, u.name.name ++ "Visitor"⟩ ∧
      d.name ≠ ⟨u.name.module, u.name.name ++ "VisitorWithOutput"⟩
  /-- No declaration has the name of a type that is generated beside an error. -/
  parameters : ∀ e, .error e ∈ ds → ∀ d ∈ ds,
    d.name ≠ ⟨e.name.module, e.name.name ++ "Parameters"⟩
  /-- No module depends on itself through others. -/
  modules : ∀ m, ¬ TransGen (ModuleDepends ds) m m

/-! ## The rules do not see the order of declarations -/

section Mono

variable {ds ds' : List Declaration} (hsub : ds ⊆ ds')

include hsub

lemma Occurs.mono {t : TypeRef} (h : Occurs ds t) : Occurs ds' t := by
  obtain ⟨d, hd, ht⟩ := h
  exact ⟨d, hsub hd, ht⟩

lemma Leads.mono {r t : TypeRef} (h : Leads ds r t) : Leads ds' r t := by
  cases h with
  | part h => exact .part h
  | enter hd hr => exact .enter (hsub hd) hr

lemma Unordered.mono {t : TypeRef} (h : Unordered ds t) : Unordered ds' t := by
  cases h with
  | double => exact .double
  | any => exact .any
  | union hu => exact .union (hsub hu)

lemma AliasStep.mono {a b : QualifiedName} (h : AliasStep ds a b) : AliasStep ds' a b := by
  obtain ⟨x, hx, hab⟩ := h
  exact ⟨x, hsub hx, hab⟩

lemma EndsAtKey.mono {r : TypeRef} (h : EndsAtKey ds r) : EndsAtKey ds' r := by
  obtain ⟨t, hrt, ht⟩ := h
  refine ⟨t, ReflTransGen.mono (fun a b hab => ?_) _ _ hrt, ?_⟩
  · cases hab with
    | fallback q => exact .fallback q b
    | target ha => exact .target (hsub ha)
  · cases ht with
    | primitive hp => exact .primitive hp
    | binary => exact .binary
    | enum he => exact .enum (hsub he)

lemma ModuleDepends.mono {a b : String} (h : ModuleDepends ds a b) : ModuleDepends ds' a b := by
  obtain ⟨hne, d, hd, hq⟩ := h
  exact ⟨hne, d, hsub hd, hq⟩

end Mono

/-- Declarations in another order are as lawful. -/
lemma Lawful.perm {ds ds' : List Declaration} (hperm : ds.Perm ds') (h : Lawful ds) :
    Lawful ds' := by
  have hto : ds ⊆ ds' := hperm.subset
  have hback : ds' ⊆ ds := hperm.symm.subset
  have hordered : ∀ r, OrderedThroughout ds r → OrderedThroughout ds' r := fun r hr t ht hun =>
    hr t (ReflTransGen.mono (fun _ _ => Leads.mono hback) _ _ ht) (hun.mono hback)
  refine {
    wellFormed := fun d hd => h.wellFormed d (hback hd)
    distinct := (hperm.map _).nodup_iff.1 h.distinct
    declared := fun q hq => ?_
    aliases := fun q hq => h.aliases q (TransGen.mono (fun _ _ => AliasStep.mono hback) _ _ hq)
    items := fun item hitem => hordered item (h.items item (hitem.mono hback))
    keys := fun key value hmap => ?_
    visitors := fun u hu d hd => h.visitors u (hback hu) d (hback hd)
    parameters := fun e he d hd => h.parameters e (hback he) d (hback hd)
    modules := fun m hm =>
      h.modules m (TransGen.mono (fun _ _ => ModuleDepends.mono hback) _ _ hm) }
  · obtain ⟨d, hd, hrest⟩ := h.declared q (hq.mono hback)
    exact ⟨d, hto hd, hrest⟩
  · obtain ⟨hkey, hend⟩ := h.keys key value (hmap.mono hback)
    exact ⟨hordered key hkey, hend.mono hto⟩

/-! ## The checks of a registry -/

namespace Registry

variable {reg : Registry} {orderable : List QualifiedName}

lemma checkKeys_ok_iff {place : String} {r : TypeRef} :
    reg.checkKeys orderable place r = .ok () ↔
      (∀ item, .set item ∈ r.subterms → item.isOrderable orderable = true) ∧
      ∀ key value, .map key value ∈ r.subterms →
        key.isOrderable orderable = true ∧ reg.canBeKey key = true := by
  induction r with
  | primitive p | binary | declared q => simp [checkKeys, TypeRef.subterms]
  | optional inner ih | list inner ih | external q inner ih =>
    simp [checkKeys, TypeRef.subterms, ih]
  | set inner ih =>
    simp only [checkKeys, check_bind_ok_iff, require_ok_iff, ih, TypeRef.subterms, List.mem_cons,
      TypeRef.set.injEq, reduceCtorEq, false_or, or_imp, forall_and, forall_eq, and_assoc]
  | map key value ihk ihv =>
    simp only [checkKeys, check_bind_ok_iff, require_ok_iff, ihk, ihv, TypeRef.subterms,
      List.mem_cons, List.mem_append, TypeRef.map.injEq, reduceCtorEq, false_or]
    constructor
    · rintro ⟨horder, hkey, ⟨hki, hkk⟩, hvi, hvk⟩
      refine ⟨fun item h => h.elim (hki item) (hvi item), fun k v h => ?_⟩
      rcases h with ⟨rfl, rfl⟩ | h | h
      · exact ⟨horder, hkey⟩
      · exact hkk k v h
      · exact hvk k v h
    · rintro ⟨hitems, hkeys⟩
      obtain ⟨horder, hkey⟩ := hkeys key value (.inl ⟨rfl, rfl⟩)
      exact ⟨horder, hkey,
        ⟨fun item h => hitems item (.inl h), fun k v h => hkeys k v (.inr (.inl h))⟩,
        fun item h => hitems item (.inr h), fun k v h => hkeys k v (.inr (.inr h))⟩

/-- A name is found and no error exactly if it is declared as something else. -/
lemma Indexed.declared_iff (hreg : reg.Indexed) {q : QualifiedName} :
    (∃ d ∈ reg.declarations, d.name = q ∧ d.kind ≠ .error) ↔
      (∃ d ∈ reg.declarations, d.name = q) ∧ reg.isError q = false := by
  constructor
  · rintro ⟨d, hd, hname, hkind⟩
    refine ⟨⟨d, hd, hname⟩, ?_⟩
    rw [isError, hreg.get?_eq_some_iff.2 ⟨hd, hname⟩]
    simpa using hkind
  · rintro ⟨⟨d, hd, hname⟩, herror⟩
    rw [isError, hreg.get?_eq_some_iff.2 ⟨hd, hname⟩] at herror
    exact ⟨d, hd, hname, by simpa using herror⟩

/-- A reference passes if its names are declared as types and its items and keys keep their
rules. -/
lemma Indexed.checkReference_ok_iff (hreg : reg.Indexed) {place : String} {r : TypeRef} :
    reg.checkReference orderable place r = .ok () ↔
      (∀ q, .declared q ∈ r.subterms → ∃ d ∈ reg.declarations, d.name = q ∧ d.kind ≠ .error) ∧
      reg.checkKeys orderable place r = .ok () := by
  simp only [hreg.declared_iff, checkReference]
  cases hresolve : reg.resolve r with
  | error q =>
    have hundeclared : ¬ ∃ s, reg.resolve r = .ok s := by simp [hresolve]
    rw [resolve_ok_iff] at hundeclared
    simp only [reduceCtorEq, false_iff, not_and]
    exact fun h => (hundeclared fun q hq => (h q hq).1).elim
  | ok s =>
    have hdeclared := resolve_ok_iff.1 ⟨s, hresolve⟩
    cases herror : r.mentions.find? reg.isError with
    | some target =>
      have htarget : reg.isError target = true := List.find?_some herror
      have hmem := TypeRef.mem_mentions_iff.1 (List.mem_of_find?_eq_some herror)
      simp only [reduceCtorEq, false_iff, not_and]
      intro h
      rw [(h target hmem).2] at htarget
      cases htarget
    | none =>
      have hfree := List.find?_eq_none.1 herror
      simp only [mapError_ok_iff, iff_and_self]
      intro _ q hq
      exact ⟨hdeclared q hq, by simpa using hfree q (TypeRef.mem_mentions_iff.2 hq)⟩

lemma checkDeclaration_ok_iff {d : Declaration} :
    reg.checkDeclaration orderable d = .ok () ↔
      (∀ member r, (member, r) ∈ d.references →
        reg.checkReference orderable (site d.name member) r = .ok ()) ∧
      ∀ a, d = .alias a → ∃ r, reg.aliasEnd a.name = .ok r := by
  unfold checkDeclaration
  rw [check_bind_ok_iff, List.forM_eq_forM, forM_ok_iff, Prod.forall]
  refine and_congr_right fun _ => ?_
  cases d <;> simp

lemma checkCompanions_ok_iff {d : Declaration} :
    reg.checkCompanions d = .ok () ↔
      ∀ q ∈ d.companions, ∀ e ∈ reg.declarations, e.name ≠ q := by
  have hcontains : ∀ q, reg.contains q = false ↔ ∀ e ∈ reg.declarations, e.name ≠ q := by
    intro q
    rw [← Bool.not_eq_true, contains_iff]
    simp
  rw [checkCompanions]
  cases hfind : d.companions.find? reg.contains with
  | some q =>
    have hmem := List.mem_of_find?_eq_some hfind
    have hdeclared : reg.contains q = true := List.find?_some hfind
    simp only [reduceCtorEq, false_iff]
    intro h
    rw [(hcontains q).2 (h q hmem)] at hdeclared
    cases hdeclared
  | none =>
    simp only [true_iff]
    exact fun q hq => (hcontains q).1 (by simpa using List.find?_eq_none.1 hfind q hq)

/-! ## Order along chains of declared names -/

/-- Where every name is declared as a type, unions and the two unordered primitives are all that
stands in the way of an order. -/
lemma Indexed.mayBeOrdered_iff (hreg : reg.Indexed)
    (hdeclared : ∀ q, Occurs reg.declarations (.declared q) →
      ∃ d ∈ reg.declarations, d.name = q ∧ d.kind ≠ .error)
    {t : TypeRef} (ht : Occurs reg.declarations t) :
    MayBeOrdered reg.declarations t ↔ ¬ Unordered reg.declarations t := by
  constructor
  · intro hmay hun
    cases hun with
    | double | any => exact absurd hmay (by simp [MayBeOrdered, Primitive.isOrderable])
    | @union u hu =>
      obtain ⟨d, hd, hname, hkind, -⟩ := hmay
      have hdu : d = .union u := hreg.eq_of_name_eq hd hu hname
      rw [hdu] at hkind
      exact hkind rfl
  · intro hnot
    cases t with
    | primitive p =>
      cases p with
      | double => exact (hnot .double).elim
      | any => exact (hnot .any).elim
      | _ => rfl
    | declared q =>
      obtain ⟨d, hd, rfl, hkind⟩ := hdeclared q ht
      refine ⟨d, hd, rfl, fun hunion => ?_, hkind⟩
      cases d with
      | union u => exact hnot (.union hd)
      | _ => cases hunion
    | _ => trivial

lemma Indexed.isOrderable_iff_orderedThroughout (hreg : reg.Indexed)
    (hdeclared : ∀ q, Occurs reg.declarations (.declared q) →
      ∃ d ∈ reg.declarations, d.name = q ∧ d.kind ≠ .error)
    {r : TypeRef} (hr : Occurs reg.declarations r) :
    r.isOrderable reg.orderable = true ↔ OrderedThroughout reg.declarations r := by
  rw [hreg.isOrderable_orderable_iff]
  exact forall_congr' fun t => imp_congr_right fun ht =>
    hreg.mayBeOrdered_iff hdeclared (hr.chain ht)

/-! ## The registry and the document -/

lemma check_ok_iff :
    reg.check orderable = .ok () ↔
      (∀ d ∈ reg.declarations, reg.checkDeclaration orderable d = .ok ()) ∧
      ∀ d ∈ reg.declarations, ∀ q ∈ d.companions, ∀ e ∈ reg.declarations, e.name ≠ q := by
  simp only [check, check_bind_ok_iff, List.forM_eq_forM, forM_ok_iff, checkCompanions_ok_iff]

/-- The generated names are free exactly if no declaration is called like a visitor of a union or
like the parameters of an error. -/
lemma companions_free_iff {ds : List Declaration} :
    (∀ d ∈ ds, ∀ q ∈ d.companions, ∀ e ∈ ds, e.name ≠ q) ↔
      (∀ u, .union u ∈ ds → ∀ d ∈ ds,
        d.name ≠ ⟨u.name.module, u.name.name ++ "Visitor"⟩ ∧
          d.name ≠ ⟨u.name.module, u.name.name ++ "VisitorWithOutput"⟩) ∧
      ∀ e, .error e ∈ ds → ∀ d ∈ ds, d.name ≠ ⟨e.name.module, e.name.name ++ "Parameters"⟩ := by
  constructor
  · intro h
    refine ⟨fun u hu d hd => ⟨?_, ?_⟩, fun e he d hd => ?_⟩
    · exact h _ hu _ (by simp [Declaration.companions]) d hd
    · exact h _ hu _ (by simp [Declaration.companions]) d hd
    · exact h _ he _ (by simp [Declaration.companions]) d hd
  · rintro ⟨hvisitors, hparameters⟩ d hd q hq e he
    cases d with
    | «alias» | enum | object => exact (List.not_mem_nil hq).elim
    | union u =>
      simp only [Declaration.companions, List.mem_cons, List.not_mem_nil, or_false] at hq
      rcases hq with rfl | rfl
      · exact (hvisitors u hd e he).1
      · exact (hvisitors u hd e he).2
    | error x =>
      simp only [Declaration.companions, List.mem_singleton] at hq
      exact hq ▸ hparameters x hd e he

/-- What the checks of a registry say of its references, place by place, is what the rules say of
everything that occurs. -/
lemma Indexed.forall_checkReference_iff (hreg : reg.Indexed) :
    (∀ d ∈ reg.declarations, ∀ member r, (member, r) ∈ d.references →
      reg.checkReference orderable (site d.name member) r = .ok ()) ↔
      (∀ q, Occurs reg.declarations (.declared q) →
        ∃ d ∈ reg.declarations, d.name = q ∧ d.kind ≠ .error) ∧
      (∀ item, Occurs reg.declarations (.set item) → item.isOrderable orderable = true) ∧
      ∀ key value, Occurs reg.declarations (.map key value) →
        key.isOrderable orderable = true ∧ reg.canBeKey key = true := by
  simp only [hreg.checkReference_ok_iff, checkKeys_ok_iff]
  constructor
  · intro h
    refine ⟨?_, ?_, ?_⟩
    · rintro q ⟨d, hd, member, r, hr, hq⟩
      exact (h d hd member r hr).1 q hq
    · rintro item ⟨d, hd, member, r, hr, hitem⟩
      exact (h d hd member r hr).2.1 item hitem
    · rintro key value ⟨d, hd, member, r, hr, hmap⟩
      exact (h d hd member r hr).2.2 key value hmap
  · rintro ⟨hdeclared, hitems, hkeys⟩ d hd member r hr
    have hoccurs : ∀ t ∈ r.subterms, Occurs reg.declarations t :=
      fun t ht => ⟨d, hd, member, r, hr, ht⟩
    exact ⟨fun q hq => hdeclared q (hoccurs _ hq), fun item h => hitems item (hoccurs _ h),
      fun key value h => hkeys key value (hoccurs _ h)⟩

/-- A registry of well-formed declarations passes its check, and its modules have no cycle, exactly
if its declarations are lawful. -/
theorem Indexed.lawful_iff (hreg : reg.Indexed) (hwf : ∀ d ∈ reg.declarations, d.WellFormed) :
    reg.check reg.orderable = .ok () ∧ (ModuleGraph.ofRegistry reg).rejectCycle = .ok () ↔
      Lawful reg.declarations := by
  rw [check_ok_iff, companions_free_iff, ModuleGraph.rejectCycle_ofRegistry_ok_iff]
  simp only [checkDeclaration_ok_iff]
  constructor
  · rintro ⟨⟨hdecls, hvisitors, hparameters⟩, hmodules⟩
    obtain ⟨hdeclared, hitems, hkeys⟩ :=
      hreg.forall_checkReference_iff.1 fun d hd => (hdecls d hd).1
    have hordered := fun r hr => hreg.isOrderable_iff_orderedThroughout hdeclared (r := r) hr
    refine ⟨hwf, hreg, hdeclared, ?_, fun item hitem => ?_, fun key value hmap => ?_, hvisitors,
      hparameters, hmodules⟩
    · refine (hreg.aliasEnd_ok_iff fun q hq => ?_).1 fun a ha => (hdecls _ ha).2 a rfl
      obtain ⟨d, hd, hname, -⟩ := hdeclared q hq
      exact ⟨d, hd, hname⟩
    · exact (hordered item (hitem.part (by simp [TypeRef.subterms]))).1 (hitems item hitem)
    · obtain ⟨horder, hkey⟩ := hkeys key value hmap
      exact ⟨(hordered key (hmap.part (by simp [TypeRef.subterms]))).1 horder,
        hreg.canBeKey_iff.1 hkey⟩
  · intro h
    have hordered := fun r hr => hreg.isOrderable_iff_orderedThroughout h.declared (r := r) hr
    have hends := (hreg.aliasEnd_ok_iff fun q hq => ?_).2 h.aliases
    · refine ⟨⟨fun d hd => ⟨?_, fun a ha => hends a (ha ▸ hd)⟩, h.visitors, h.parameters⟩,
        h.modules⟩
      refine hreg.forall_checkReference_iff.2 ⟨h.declared, ?_, ?_⟩ d hd
      · intro item hitem
        exact (hordered item (hitem.part (by simp [TypeRef.subterms]))).2 (h.items item hitem)
      · intro key value hmap
        obtain ⟨horder, hend⟩ := h.keys key value hmap
        exact ⟨(hordered key (hmap.part (by simp [TypeRef.subterms]))).2 horder,
          hreg.canBeKey_iff.2 hend⟩
    · obtain ⟨d, hd, hname, -⟩ := h.declared q hq
      exact ⟨d, hd, hname⟩

end Registry

/-- The steps of making a contract, each with what it gives. -/
lemma Contract.ofDocument_ok_iff {doc : Document} {c : Contract} :
    Contract.ofDocument doc = .ok c ↔
      (∀ d ∈ doc.declarations, d.WellFormed) ∧
      ∃ reg, Registry.ofDeclarations doc.declarations = .ok reg ∧
        reg.check reg.orderable = .ok () ∧ (ModuleGraph.ofRegistry reg).rejectCycle = .ok () ∧
        c = ⟨doc.version, reg, ModuleGraph.ofRegistry reg, reg.orderable, reg.boxedSlots⟩ := by
  rw [Contract.ofDocument, check_bind_ok_iff, mapError_ok_iff, Document.check_ok_iff, bind_ok_iff]
  simp only [check_bind_ok_iff, mapError_ok_iff, pure_ok_iff, eq_comm (b := c)]

/-- What a contract has of its document: the same declarations, which are lawful, in a registry,
and the facts that were found out about them. -/
structure Contract.Of (c : Contract) (doc : Document) : Prop where
  perm : c.registry.declarations.Perm doc.declarations
  indexed : c.registry.Indexed
  lawful : Lawful c.registry.declarations
  graph : c.graph = ModuleGraph.ofRegistry c.registry
  orderable : c.orderable = c.registry.orderable
  boxed : c.boxed = c.registry.boxedSlots

lemma Contract.of_ofDocument {doc : Document} {c : Contract}
    (h : Contract.ofDocument doc = .ok c) : c.Of doc := by
  obtain ⟨hwf, reg, hreg, hcheck, hcycle, rfl⟩ := Contract.ofDocument_ok_iff.1 h
  have hindexed := Registry.indexed_of_ofDeclarations hreg
  have hperm := Registry.perm_of_ofDeclarations hreg
  have hwf' : ∀ d ∈ reg.declarations, d.WellFormed := fun d hd => hwf d (hperm.mem_iff.1 hd)
  exact ⟨hperm, hindexed, (hindexed.lawful_iff hwf').1 ⟨hcheck, hcycle⟩, rfl, rfl, rfl⟩

/-- Declarations that stand in the order of their names are indexed as they stand. -/
lemma Contract.registry_of_sorted {doc : Document} {c : Contract}
    (h : Contract.ofDocument doc = .ok c)
    (hsorted : doc.declarations.Pairwise fun a b => a.name.le b.name = true) :
    c.registry = ⟨doc.declarations⟩ := by
  obtain ⟨-, reg, hreg, -, -, rfl⟩ := Contract.ofDocument_ok_iff.1 h
  rw [(Registry.ofDeclarations_ok_iff.1 hreg).2]
  exact congrArg Registry.mk (List.mergeSort_of_pairwise hsorted)

/-- Lawful declarations become a contract, in whatever order they are given. -/
lemma Lawful.exists_contract {doc : Document} (h : Lawful doc.declarations) :
    ∃ c, Contract.ofDocument doc = .ok c := by
  have hreg := Registry.ofDeclarations_ok_iff.2 ⟨h.distinct, rfl⟩
  have hindexed := Registry.indexed_of_ofDeclarations hreg
  have hlawful := h.perm (Registry.perm_of_ofDeclarations hreg).symm
  obtain ⟨hcheck, hcycle⟩ := (hindexed.lawful_iff hlawful.wellFormed).2 hlawful
  exact ⟨_, Contract.ofDocument_ok_iff.2 ⟨h.wellFormed, _, hreg, hcheck, hcycle, rfl⟩⟩

/-- A document is accepted if its declarations pass their checks in the order in which they stand,
and some rank of modules falls along every dependency.  Nothing is sorted here and no graph is
searched, so that documents with several modules are quickly seen to be accepted. -/
lemma Contract.isOk_of_ranked {doc : Document} (rank : String → ℕ)
    (hnames : (doc.declarations.map Declaration.name).Nodup) (hwf : doc.check = .ok ())
    (hcheck : Registry.check ⟨doc.declarations⟩ (Registry.orderable ⟨doc.declarations⟩) = .ok ())
    (hrank : ∀ d ∈ doc.declarations, ∀ q ∈ d.mentions, d.name.module ≠ q.module →
      rank q.module < rank d.name.module) :
    (Contract.ofDocument doc).isOk = true := by
  have hstep {m n : String} (h : ModuleDepends doc.declarations m n) : rank n < rank m := by
    obtain ⟨hne, d, hd, q, hq, rfl, rfl⟩ := h
    exact hrank d hd q (Declaration.mem_mentions_iff.2 hq) hne
  have hfalls {m n : String} (h : TransGen (ModuleDepends doc.declarations) m n) :
      rank n < rank m := by
    induction h with
    | single h => exact hstep h
    | tail _ h ih => exact (hstep h).trans ih
  have hindexed : Registry.Indexed ⟨doc.declarations⟩ := hnames
  have hlawful : Lawful doc.declarations := (hindexed.lawful_iff (Document.check_ok_iff.1 hwf)).1
    ⟨hcheck, ModuleGraph.rejectCycle_ofRegistry_ok_iff.2 fun m hm => (hfalls hm).false⟩
  obtain ⟨c, hc⟩ := hlawful.exists_contract
  rw [hc]
  rfl

/-- A document becomes a contract exactly if its declarations keep all rules. -/
theorem Contract.accepts_iff_lawful (doc : Document) :
    (∃ c, Contract.ofDocument doc = .ok c) ↔ Lawful doc.declarations := by
  constructor
  · rintro ⟨c, hc⟩
    exact (Contract.of_ofDocument hc).lawful.perm (Contract.of_ofDocument hc).perm
  · exact fun h => h.exists_contract

end WireContract.Schema
