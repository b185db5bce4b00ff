import WireContract.Proofs.AliasEnds
import WireContract.Proofs.Boxing
import WireContract.Proofs.DeclarationOrder
import WireContract.Proofs.PackageTree

/-!
# Adding declarations elsewhere

A file of the emitted tree is written with knowledge of the whole contract: which declarations have
an order, which slots are boxed, and which references are collections.  All three look along chains
of references.  In a contract every name that a declaration mentions is declared in it, so the
chains that start there never leave it, whatever else a larger contract declares (`Extends`).  Hence
the larger contract gives the same answers about the old declarations, and a group of a module to
which nothing is added has the same file in it.
-/

namespace WireContract.Schema

open Relation

/-! ## Steps that stay inside -/

/-- A larger relation that, inside a set, has the steps of a smaller one and stays in the set, leads
from the set where the smaller one does. -/
lemma reflTransGen_of_closed {α : Type} {R R' : α → α → Prop} {P : α → Prop}
    (hback : ∀ a b, P a → R' a b → R a b ∧ P b) {a b : α} (ha : P a) (h : ReflTransGen R' a b) :
    ReflTransGen R a b ∧ P b := by
  induction h with
  | refl => exact ⟨.refl, ha⟩
  | tail _ hstep ih =>
    obtain ⟨hstep', hb⟩ := hback _ _ ih.2 hstep
    exact ⟨ih.1.tail hstep', hb⟩

/-- Every name in the reference is declared. -/
def Knows (ds : List Declaration) (r : TypeRef) : Prop :=
  ∀ q, .declared q ∈ r.subterms → ∃ d ∈ ds, d.name = q

/-- The declarations are among others, whose names are distinct, and mention only each other. -/
structure Extends (ds ds' : List Declaration) : Prop where
  subset : ds ⊆ ds'
  distinct : (ds'.map Declaration.name).Nodup
  named : ∀ q, Occurs ds (.declared q) → ∃ d ∈ ds, d.name = q

namespace Extends

variable {ds ds' : List Declaration} (h : Extends ds ds')

include h

/-- A declaration with the name of an old one is the old one. -/
lemma eq_of_name_eq {d d' : Declaration} (hd : d ∈ ds) (hd' : d' ∈ ds') (hname : d'.name = d.name) :
    d' = d :=
  List.inj_on_of_nodup_map h.distinct hd' (h.subset hd) hname

/-- The references of old declarations mention only old names. -/
lemma knows {d : Declaration} (hd : d ∈ ds) {member : String} {r : TypeRef}
    (hr : (member, r) ∈ d.references) : Knows ds r :=
  fun q hq => h.named q ⟨d, hd, member, r, hr, hq⟩

/-! ## Order -/

lemma leads_of_knows {r t : TypeRef} (hr : Knows ds r) (hstep : Leads ds' r t) :
    Leads ds r t ∧ Knows ds t := by
  cases hstep with
  | part hpart =>
    exact ⟨.part hpart, fun q hq => hr q (TypeRef.mem_subterms_trans hq hpart)⟩
  | @enter d' member _ hd' hmember =>
    obtain ⟨d, hd, hname⟩ := hr d'.name (TypeRef.self_mem_subterms _)
    obtain rfl := h.eq_of_name_eq hd hd' hname.symm
    exact ⟨.enter hd hmember, h.knows hd hmember⟩

lemma chain_of_knows {r t : TypeRef} (hr : Knows ds r) (hchain : Chain ds' r t) :
    Chain ds r t ∧ Knows ds t :=
  reflTransGen_of_closed (P := Knows ds) (fun _ _ hr => h.leads_of_knows hr) hr hchain

lemma mayBeOrdered_iff {t : TypeRef} (ht : Knows ds t) :
    MayBeOrdered ds' t ↔ MayBeOrdered ds t := by
  cases t with
  | declared q =>
    constructor
    · rintro ⟨d', hd', rfl, hkind⟩
      obtain ⟨d, hd, hname⟩ := ht d'.name (TypeRef.self_mem_subterms _)
      obtain rfl := h.eq_of_name_eq hd hd' hname.symm
      exact ⟨d', hd, rfl, hkind⟩
    · rintro ⟨d, hd, hname, hkind⟩
      exact ⟨d, h.subset hd, hname, hkind⟩
  | _ => exact Iff.rfl

/-! ## Holding in place -/

lemma heldIn_of_declared {a b : QualifiedName} (ha : ∃ d ∈ ds, d.name = a)
    (hstep : HeldIn ds' a b) : HeldIn ds a b ∧ ∃ d ∈ ds, d.name = b := by
  obtain ⟨d, hd, rfl⟩ := ha
  obtain ⟨d', hd', hname, member, r, hr, hb⟩ := hstep
  obtain rfl := h.eq_of_name_eq hd hd' hname
  exact ⟨⟨d', hd, rfl, member, r, hr, hb⟩, h.knows hd hr b hb.mem_subterms⟩

lemma holds_iff {a b : QualifiedName} (ha : ∃ d ∈ ds, d.name = a) :
    ReflTransGen (HeldIn ds') a b ↔ ReflTransGen (HeldIn ds) a b := by
  constructor
  · intro hab
    exact (reflTransGen_of_closed (P := fun q => ∃ d ∈ ds, d.name = q)
      (fun _ _ hq => h.heldIn_of_declared hq) ha hab).1
  · refine fun hab => ReflTransGen.mono (fun x y hxy => ?_) _ _ hab
    obtain ⟨d, hd, hrest⟩ := hxy
    exact ⟨d, h.subset hd, hrest⟩

end Extends

/-! ## Registries -/

namespace Registry

variable {reg reg' : Registry} (h : Extends reg.declarations reg'.declarations)

include h

lemma isOrderable_of_extends (hreg : reg.Indexed) {r : TypeRef} (hr : Knows reg.declarations r) :
    r.isOrderable reg'.orderable = r.isOrderable reg.orderable := by
  have hreg' : reg'.Indexed := h.distinct
  rw [Bool.eq_iff_iff, hreg'.isOrderable_orderable_iff, hreg.isOrderable_orderable_iff]
  constructor
  · intro hordered t ht
    have ht' : Chain reg'.declarations r t :=
      ReflTransGen.mono (fun _ _ => Leads.mono h.subset) _ _ ht
    obtain ⟨-, hknows⟩ := h.chain_of_knows hr ht'
    exact (h.mayBeOrdered_iff hknows).1 (hordered t ht')
  · intro hordered t ht
    obtain ⟨hchain, hknows⟩ := h.chain_of_knows hr ht
    exact (h.mayBeOrdered_iff hknows).2 (hordered t hchain)

/-- The larger registry resolves what the smaller one does, to the same. -/
lemma resolve_of_extends {t : TypeRef} {r : Resolved} (hr : reg.resolve t = .ok r) :
    reg'.resolve t = .ok r := by
  have hreg' : reg'.Indexed := h.distinct
  rw [resolve_eq_ok_iff] at hr ⊢
  refine ⟨hr.1, fun q kind hq => ?_⟩
  obtain ⟨d, hd, hkind⟩ := hr.2 q kind hq
  obtain ⟨hmem, rfl⟩ := mem_of_get? hd
  exact ⟨d, hreg'.get?_name (h.subset hmem), hkind⟩

/-- Chains of aliases end in the larger registry where they end in the smaller one. -/
lemma endsAt_of_extends {q : QualifiedName} {r : Resolved} (hend : reg.EndsAt q r) :
    reg'.EndsAt q r := by
  induction hend with
  | type hd hkind => exact .type (h.subset hd) hkind
  | link ha htarget _ ih => exact .link (h.subset ha) htarget ih
  | target ha htarget hr => exact .target (h.subset ha) htarget (resolve_of_extends h hr)

lemma isCollection_of_extends (hreg : reg.Indexed)
    (hacyclic : ∀ q, ¬ TransGen (AliasStep reg.declarations) q q) {r : TypeRef}
    (hr : Knows reg.declarations r) : reg'.isCollection r = reg.isCollection r := by
  induction r with
  | primitive | binary | optional | list | set | map => rfl
  | external q inner ih => exact ih fun q' hq' => hr q' (List.mem_cons_of_mem _ hq')
  | declared q =>
    have hreg' : reg'.Indexed := h.distinct
    have hends := (hreg.aliasEnd_ok_iff h.named).2 hacyclic
    obtain ⟨d, hd, rfl⟩ := hr q (TypeRef.self_mem_subterms _)
    obtain ⟨s, hs⟩ : ∃ s, reg.EndsAt d.name s := by
      cases d with
      | «alias» a =>
        obtain ⟨s, hs⟩ := hends a hd
        exact ⟨s, hreg.aliasEnd_ok_iff_endsAt.1 hs⟩
      | enum | object | union | error => exact ⟨_, .type hd (by simp [Declaration.kind])⟩
    rw [isCollection, isCollection, hreg.aliasEnd_ok_iff_endsAt.2 hs,
      hreg'.aliasEnd_ok_iff_endsAt.2 (endsAt_of_extends h hs)]

/-- The boxes of an old declaration are the same. -/
lemma mem_boxedSlots_of_extends (hreg : reg.Indexed) (htypes : reg.TypesOnly)
    (htypes' : reg'.TypesOnly) {d : Declaration} (hd : d ∈ reg.declarations) {member : String} :
    (d.name, member) ∈ reg'.boxedSlots ↔ (d.name, member) ∈ reg.boxedSlots := by
  have hreg' : reg'.Indexed := h.distinct
  rw [hreg'.mem_boxedSlots_iff htypes', hreg.mem_boxedSlots_iff htypes]
  constructor
  · rintro ⟨d', hd', hname, r, hr, q, hq, hback⟩
    obtain rfl := h.eq_of_name_eq hd hd' hname
    have hdeclared := h.knows hd hr q hq.mem_subterms
    exact ⟨d', hd, rfl, r, hr, q, hq, (h.holds_iff hdeclared).1 hback⟩
  · rintro ⟨d', hd', hname, r, hr, q, hq, hback⟩
    have hdeclared := h.knows hd' hr q hq.mem_subterms
    exact ⟨d', h.subset hd', hname, r, hr, q, hq, (h.holds_iff hdeclared).2 hback⟩

end Registry

end WireContract.Schema

/-! ## Contracts -/

namespace WireContract.Schema

namespace Contract

variable {doc doc' : Document} {added : List Declaration} {c c' : Contract}

/-- The declarations of a contract come in the order of their names. -/
lemma pairwise_of_ofDocument (h : Contract.ofDocument doc = .ok c) :
    c.registry.declarations.Pairwise fun a b => a.name.le b.name = true := by
  obtain ⟨-, reg, hreg, -, -, rfl⟩ := Contract.ofDocument_ok_iff.1 h
  exact Registry.pairwise_of_ofDeclarations hreg

variable (h : Contract.ofDocument doc = .ok c) (h' : Contract.ofDocument doc' = .ok c')
  (hadded : doc'.declarations.Perm (doc.declarations ++ added))

include h h' hadded

/-- The declarations of the larger contract are those of the smaller one and the added ones. -/
lemma perm_of_added :
    c'.registry.declarations.Perm (c.registry.declarations ++ added) :=
  (of_ofDocument h').perm.trans
    (hadded.trans ((of_ofDocument h).perm.symm.append_right added))

lemma extends_of_added : Extends c.registry.declarations c'.registry.declarations := by
  have hof := of_ofDocument h
  refine ⟨fun d hd => ?_, (of_ofDocument h').indexed, fun q hq => ?_⟩
  · exact (perm_of_added h h' hadded).mem_iff.2 (List.mem_append_left _ hd)
  · obtain ⟨d, hd, hname, -⟩ := hof.lawful.declared q hq
    exact ⟨d, hd, hname⟩

/-- Where no declaration of a kind is added to a module, the module has the same ones of the kind,
in the same order. -/
lemma filter_moduleDeclarations_of_added {module : String} {p : Declaration → Bool}
    (hkept : ∀ d ∈ added, d.name.module = module → p d = false) :
    (c'.registry.moduleDeclarations module).filter p =
      (c.registry.moduleDeclarations module).filter p := by
  have hnone : (added.filter (·.name.module == module)).filter p = [] := by
    rw [List.filter_filter, List.filter_eq_nil_iff]
    intro d hd hboth
    obtain ⟨hp, hmodule⟩ := Bool.and_eq_true_iff.1 hboth
    rw [hkept d hd (by simpa using hmodule)] at hp
    cases hp
  have hsame : ((c'.registry.moduleDeclarations module).filter p).Perm
      ((c.registry.moduleDeclarations module).filter p) := by
    have hfilter := ((perm_of_added h h' hadded).filter (·.name.module == module)).filter p
    rwa [List.filter_append, List.filter_append, hnone, List.append_nil] at hfilter
  have hsorted := ((pairwise_of_ofDocument h).filter (·.name.module == module)).filter p
  have hsorted' := ((pairwise_of_ofDocument h').filter (·.name.module == module)).filter p
  refine List.Perm.eq_of_pairwise (fun a b ha hb hab hba => ?_) hsorted' hsorted hsame
  have hb' : b ∈ (c'.registry.moduleDeclarations module).filter p := hsame.mem_iff.2 hb
  exact (of_ofDocument h').indexed.eq_of_name_eq
    (List.mem_of_mem_filter (List.mem_of_mem_filter ha))
    (List.mem_of_mem_filter (List.mem_of_mem_filter hb')) (QualifiedName.le_antisymm hab hba)

end Contract

end WireContract.Schema

/-! ## Emission -/

namespace WireContract.Emit

open Schema

/-- Two scopes know the same of a declaration. -/
structure Scope.Agree (scope scope' : Scope) (d : Declaration) : Prop where
  runtime : scope.runtime = scope'.runtime
  imports : scope.imports = scope'.imports
  orderable : scope.contract.isOrderable d.name = scope'.contract.isOrderable d.name
  boxed : ∀ member, scope.contract.isBoxed d.name member = scope'.contract.isBoxed d.name member
  ordered : ∀ member r, (member, r) ∈ d.references →
    r.isOrderable scope.contract.orderable = r.isOrderable scope'.contract.orderable
  collections : ∀ member r, (member, r) ∈ d.references →
    scope.contract.registry.isCollection r = scope'.contract.registry.isCollection r

section Congr

variable {c c' : Contract} {runtime : Rust.Path} {imports : Imports}

lemma fieldAttr_congr (runtime : Rust.Path) (imports : Imports) (key : String) {r : TypeRef}
    (h : c.registry.isCollection r = c'.registry.isCollection r) :
    fieldAttr ⟨c, runtime, imports⟩ key r = fieldAttr ⟨c', runtime, imports⟩ key r := by
  have hrule : c.registry.fieldRule r = c'.registry.fieldRule r := by
    unfold Registry.fieldRule
    rw [h]
  rw [fieldAttr, fieldAttr, hrule]
  rfl

lemma aliasItems_congr {a : Alias}
    (h : Scope.Agree ⟨c, runtime, imports⟩ ⟨c', runtime, imports⟩ (.alias a)) :
    aliasItems ⟨c, runtime, imports⟩ a = aliasItems ⟨c', runtime, imports⟩ a := by
  have horder : c.isOrderable a.name = c'.isOrderable a.name := h.orderable
  have hbox : c.isBoxed a.name "" = c'.isBoxed a.name "" := h.boxed ""
  have hcollection := h.collections "" a.target (List.mem_singleton_self _)
  simp only [aliasItems, targetType, horder, hbox, hcollection]
  rfl

lemma enumItems_congr {e : Enum}
    (h : Scope.Agree ⟨c, runtime, imports⟩ ⟨c', runtime, imports⟩ (.enum e)) :
    enumItems ⟨c, runtime, imports⟩ e = enumItems ⟨c', runtime, imports⟩ e := by
  have horder : c.isOrderable e.name = c'.isOrderable e.name := h.orderable
  simp only [enumItems, horder]
  rfl

lemma objectItems_congr {o : Object}
    (h : Scope.Agree ⟨c, runtime, imports⟩ ⟨c', runtime, imports⟩ (.object o)) :
    objectItems ⟨c, runtime, imports⟩ o = objectItems ⟨c', runtime, imports⟩ o := by
  have horder : c.isOrderable o.name = c'.isOrderable o.name := h.orderable
  have hfields : objectFields ⟨c, runtime, imports⟩ o = objectFields ⟨c', runtime, imports⟩ o := by
    refine List.map_congr_left fun f hf => ?_
    have hmem : (f.name, f.type) ∈ (Declaration.object o).references := List.mem_map.2 ⟨f, hf, rfl⟩
    have hbox : c.isBoxed o.name f.name = c'.isBoxed o.name f.name := h.boxed f.name
    have hattr := fieldAttr_congr runtime imports f.name (h.collections f.name f.type hmem)
    simp only [fieldOf, hattr, hbox]
    rfl
  simp only [objectItems, horder, hfields]

lemma visitMethods_congr {u : Union}
    (h : Scope.Agree ⟨c, runtime, imports⟩ ⟨c', runtime, imports⟩ (.union u))
    (result : Option Rust.Ty) :
    visitMethods ⟨c, runtime, imports⟩ u result = visitMethods ⟨c', runtime, imports⟩ u result := by
  have hbox : ∀ tag, c.isBoxed u.name tag = c'.isBoxed u.name tag := h.boxed
  simp only [visitMethods, hbox]
  rfl

lemma unionItems_congr {u : Union}
    (h : Scope.Agree ⟨c, runtime, imports⟩ ⟨c', runtime, imports⟩ (.union u)) :
    unionItems ⟨c, runtime, imports⟩ u = unionItems ⟨c', runtime, imports⟩ u := by
  have hbox : ∀ tag, c.isBoxed u.name tag = c'.isBoxed u.name tag := h.boxed
  have hvariants :
      unionVariants ⟨c, runtime, imports⟩ u = unionVariants ⟨c', runtime, imports⟩ u := by
    simp only [unionVariants, hbox]
    rfl
  simp only [unionItems, hvariants, visitMethods_congr h]
  rfl

lemma visitorItems_congr {u : Union}
    (h : Scope.Agree ⟨c, runtime, imports⟩ ⟨c', runtime, imports⟩ (.union u)) :
    visitorItems ⟨c, runtime, imports⟩ u = visitorItems ⟨c', runtime, imports⟩ u := by
  simp only [visitorItems, visitMethods_congr h]

lemma errorItems_congr {e : ErrorDecl}
    (h : Scope.Agree ⟨c, runtime, imports⟩ ⟨c', runtime, imports⟩ (.error e)) (server : Bool) :
    errorItems ⟨c, runtime, imports⟩ server e = errorItems ⟨c', runtime, imports⟩ server e := by
  have hmem : ∀ p ∈ e.params, (p.name, p.type) ∈ (Declaration.error e).references :=
    fun p hp => List.mem_map.2 ⟨p, hp, rfl⟩
  have horder : (e.params.all fun p => p.type.isOrderable c.orderable) =
      e.params.all fun p => p.type.isOrderable c'.orderable := by
    rw [Bool.eq_iff_iff, List.all_eq_true, List.all_eq_true]
    refine forall₂_congr fun p hp => ?_
    rw [h.ordered p.name p.type (hmem p hp)]
  have hfields : paramFields ⟨c, runtime, imports⟩ e = paramFields ⟨c', runtime, imports⟩ e := by
    refine List.map_congr_left fun p hp => ?_
    have hattr := fieldAttr_congr runtime imports p.name (h.collections p.name p.type (hmem p hp))
    simp only [fieldOf, hattr]
    rfl
  simp only [errorItems, parametersItem, horder, hfields]
  rfl

end Congr

/-- The items of a declaration depend on what a scope knows of it, and on nothing else of the
contract. -/
lemma Group.items_congr {scope scope' : Scope} {d : Declaration} (h : scope.Agree scope' d)
    (g : Group) (server : Bool) : g.items scope server d = g.items scope' server d := by
  obtain ⟨c, runtime, imports⟩ := scope
  obtain ⟨c', runtime', imports'⟩ := scope'
  obtain rfl : runtime = runtime' := h.runtime
  obtain rfl : imports = imports' := h.imports
  cases d with
  | «alias» a => cases g <;> exact aliasItems_congr h
  | enum e => cases g <;> exact enumItems_congr h
  | object o => cases g <;> exact objectItems_congr h
  | error e => cases g <;> exact errorItems_congr h server
  | union u =>
    cases g with
    | visitors => exact visitorItems_congr h
    | _ => exact unionItems_congr h

/-! ## The files of groups to which nothing is added -/

section Added

variable {doc doc' : Document} {added : List Declaration} {c c' : Contract}
  (h : Contract.ofDocument doc = .ok c) (h' : Contract.ofDocument doc' = .ok c')
  (hadded : doc'.declarations.Perm (doc.declarations ++ added))

include h h' hadded

/-- The larger contract and the smaller one know the same of an old declaration. -/
lemma agree_of_added {d : Declaration} (hd : d ∈ c.registry.declarations) (runtime : Rust.Path)
    (imports : Imports) : Scope.Agree ⟨c', runtime, imports⟩ ⟨c, runtime, imports⟩ d := by
  have hof := Contract.of_ofDocument h
  have hof' := Contract.of_ofDocument h'
  have hext := Contract.extends_of_added h h' hadded
  have hordered : ∀ r, Knows c.registry.declarations r →
      r.isOrderable c'.orderable = r.isOrderable c.orderable := by
    intro r hr
    rw [hof.orderable, hof'.orderable, Registry.isOrderable_of_extends hext hof.indexed hr]
  refine ⟨rfl, rfl, ?_, fun member => ?_, fun member r hr => ?_, fun member r hr => ?_⟩
  · have hself : Knows c.registry.declarations (.declared d.name) := by
      intro q hq
      rw [TypeRef.subterms, List.mem_singleton] at hq
      exact ⟨d, hd, (TypeRef.declared.inj hq).symm⟩
    exact hordered _ hself
  · have hbox : (d.name, member) ∈ c'.registry.boxedSlots ↔
        (d.name, member) ∈ c.registry.boxedSlots :=
      Registry.mem_boxedSlots_of_extends hext hof.indexed hof.lawful.declared
        hof'.lawful.declared hd
    rw [Contract.isBoxed, Contract.isBoxed, hof.boxed, hof'.boxed, Bool.eq_iff_iff,
      List.contains_iff_mem, List.contains_iff_mem, hbox]
  · exact hordered r (hext.knows hd hr)
  · exact Registry.isCollection_of_extends hext hof.indexed hof.lawful.aliases (hext.knows hd hr)

/-- The file of old declarations is the same for both contracts. -/
lemma fileOf_of_added {ds : List Declaration} (hds : ds ⊆ c.registry.declarations)
    (runtime : Rust.Path) (server : Bool) (module : String) (g : Group) :
    fileOf c' runtime server module g ds = fileOf c runtime server module g ds := by
  have hitems : ds.flatMap (g.items (scopeOf c' runtime module ds) server) =
      ds.flatMap (g.items (scopeOf c runtime module ds) server) := by
    refine List.flatMap_congr fun d hd => ?_
    exact Group.items_congr (agree_of_added h h' hadded (hds hd) runtime _) g server
  rw [fileOf, fileOf, hitems]
  rfl

/-- A group of a module to which nothing is added has its file in the larger contract. -/
lemma mem_moduleFiles_of_added {module : String} {s : SourceFile}
    (hkept : ∀ d ∈ added, d.name.module = module → s.group.has d = false) (runtime : Rust.Path)
    (o : Options) : s ∈ moduleFiles c' runtime o module ↔ s ∈ moduleFiles c runtime o module := by
  have hds : (c.registry.moduleDeclarations module).filter s.group.has ⊆
      c.registry.declarations :=
    fun d hd => List.mem_of_mem_filter (List.mem_of_mem_filter hd)
  rw [mem_moduleFiles_iff, mem_moduleFiles_iff,
    Contract.filter_moduleDeclarations_of_added h h' hadded hkept,
    fileOf_of_added h h' hadded hds]

end Added

/-- When declarations are added to a contract, the file of a group in a module to which no
declaration of the group is added stays as it is: the larger tree has it, and no other file at its
path. -/
theorem added_declarations_keep_files (doc doc' : Document) (added : List Declaration)
    (hadded : doc'.declarations.Perm (doc.declarations ++ added)) (c c' : Contract)
    (hc : Contract.ofDocument doc = .ok c) (hc' : Contract.ofDocument doc' = .ok c') (o : Options)
    (f f' : Forest) (hf : emit c o = .ok f) (hf' : emit c' o = .ok f') (module : String) (g : Group)
    (hkept : ∀ d ∈ added, d.name.module = module → g.has d = false) (t : TreeFile)
    (ht : t ∈ f.files) (hpath : t.path = filePath module g) :
    t ∈ f'.files ∧ ∀ t' ∈ f'.files, t'.path = t.path → t' = t := by
  obtain ⟨runtime, hruntime, rfl, -⟩ := emit_ok_iff.1 hf
  obtain ⟨runtime', hruntime', rfl, -⟩ := emit_ok_iff.1 hf'
  obtain rfl : runtime = runtime' := Option.some.inj (hruntime.symm.trans hruntime')
  have harranged := arranges_forestOf c runtime o
  have harranged' := arranges_forestOf c' runtime o
  obtain ⟨-, s, hs, rfl, rfl⟩ := harranged.mem_files_filePath_iff.1 ⟨ht, hpath⟩
  have hs' := (mem_moduleFiles_of_added hc hc' hadded hkept runtime o).2 hs
  refine ⟨?_, fun t' ht' hpath' => ?_⟩
  · exact (harranged'.mem_files_filePath_iff.2
      ⟨mem_modules_of_mem_moduleFiles hs', s, hs', rfl, rfl⟩).1
  · obtain ⟨-, s₂, hs₂, hgroup, rfl⟩ :=
      harranged'.mem_files_filePath_iff.1 ⟨ht', hpath'.trans hpath⟩
    have hfile := (mem_moduleFiles_iff.1 hs').2.2
    have hfile₂ := (mem_moduleFiles_iff.1 hs₂).2.2
    rw [hgroup] at hfile₂
    have hsame : s₂ = s := by
      cases s
      cases s₂
      simp_all
    rw [hsame]

/-- An object that holds an alias of another module, and a union beside the object that holds it. -/
def refilledPens : Document :=
  ⟨1, .union ⟨⟨"pens", "Refill"⟩, [⟨"pen", .declared ⟨"pens", "Pen"⟩, none⟩], none⟩ ::
    crossModule.declarations⟩

/-- The tree has a file for the objects of the module to which the union was added, and with the
union it has the same. -/
theorem added_declarations_keep_files_refilledPens :
    ∃ c c' f f' t, Contract.ofDocument crossModule = .ok c ∧
      Contract.ofDocument refilledPens = .ok c' ∧ emit c {} = .ok f ∧ emit c' {} = .ok f' ∧
      t ∈ f.files ∧ t.path = filePath "pens" .objects ∧ t ∈ f'.files ∧
      ∀ t' ∈ f'.files, t'.path = t.path → t' = t := by
  have hruntime : (Rust.Path.parse? (Options.runtime {})).any Rust.Path.isUnrestricted = true := by
    decide +kernel
  obtain ⟨c, f, hc, hf⟩ : ∃ c f, Contract.ofDocument crossModule = .ok c ∧ emit c {} = .ok f :=
    exists_emit_ok isOk_crossModule hruntime (by decide +kernel)
  have hrefilled : (Contract.ofDocument refilledPens).isOk = true :=
    Contract.isOk_of_ranked (fun m => if m = "pens" then 1 else 0) (by decide) rfl rfl (by decide)
  obtain ⟨c', f', hc', hf'⟩ :
      ∃ c f, Contract.ofDocument refilledPens = .ok c ∧ emit c {} = .ok f :=
    exists_emit_ok hrefilled hruntime (by decide +kernel)
  have hpen : .object ⟨⟨"pens", "Pen"⟩, [⟨"shade", .declared ⟨"ink", "Shade"⟩, none, none⟩], none⟩ ∈
      c.registry.declarations :=
    (Contract.of_ofDocument hc).perm.mem_iff.2 List.mem_cons_self
  obtain ⟨t, ht, hpath⟩ := exists_mem_files hf hpen (g := .objects) (by decide) rfl
  have hadded : refilledPens.declarations.Perm (crossModule.declarations ++
      [.union ⟨⟨"pens", "Refill"⟩, [⟨"pen", .declared ⟨"pens", "Pen"⟩, none⟩], none⟩]) :=
    (List.perm_append_singleton _ _).symm
  have hkept := added_declarations_keep_files crossModule refilledPens _ hadded c c' hc hc' {} f f'
    hf hf' "pens" .objects (by simp [Group.has]) t ht hpath
  exact ⟨c, c', f, f', t, hc, hc', hf, hf', ht, hpath, hkept⟩

end WireContract.Emit
