import Mathlib.Data.List.Nodup
import Mathlib.Data.List.Perm.Subperm
import Mathlib.Logic.Relation
import Mathlib.Tactic.Common
import WireContract.Schema.Registry

/-!
# References and the declarations they lead to

A reference is a tree, and a declared name in it stands for the references of its declaration.  This
module has the vocabulary for both: `TypeRef.subterms` lists what occurs in a reference at any
depth, `Occurs` says that something occurs in a reference of some declaration, and `Leads` is one
step of a chain of references, from a reference to one of its parts or from a declared name to a
reference of its declaration.

A registry whose names are distinct (`Registry.Indexed`) finds by a name exactly the declaration
that has it; a registry made of the declarations of a document is one, with the same declarations.
-/

namespace WireContract.Schema

open Relation

/-! ## Parts of a reference -/

namespace TypeRef

/-- What occurs in a reference at any depth, the reference itself first. -/
def subterms : TypeRef → List TypeRef
  | .primitive p => [.primitive p]
  | .binary => [.binary]
  | .optional inner => .optional inner :: inner.subterms
  | .list item => .list item :: item.subterms
  | .set item => .set item :: item.subterms
  | .map key value => .map key value :: (key.subterms ++ value.subterms)
  | .declared name => [.declared name]
  | .external name fallback => .external name fallback :: fallback.subterms

@[simp] lemma self_mem_subterms (r : TypeRef) : r ∈ r.subterms := by
  cases r <;> simp [subterms]

/-- What occurs in a part of a reference occurs in the reference. -/
lemma mem_subterms_trans {s t r : TypeRef} (hst : s ∈ t.subterms) (htr : t ∈ r.subterms) :
    s ∈ r.subterms := by
  induction r with
  | primitive p | binary | declared q =>
    rw [subterms, List.mem_singleton] at htr
    rwa [← htr]
  | optional inner ih | list inner ih | set inner ih | external q inner ih =>
    rw [subterms, List.mem_cons] at htr
    rcases htr with rfl | htr
    · exact hst
    · exact List.mem_cons_of_mem _ (ih htr)
  | map key value ihk ihv =>
    rw [subterms, List.mem_cons, List.mem_append] at htr
    rcases htr with rfl | htr | htr
    · exact hst
    · exact List.mem_cons_of_mem _ (List.mem_append_left _ (ihk htr))
    · exact List.mem_cons_of_mem _ (List.mem_append_right _ (ihv htr))

/-- The mentioned names are the declared names that occur. -/
lemma mem_mentions_iff {r : TypeRef} {q : QualifiedName} :
    q ∈ r.mentions ↔ .declared q ∈ r.subterms := by
  induction r with
  | primitive p | binary | declared q' => simp [mentions, subterms]
  | optional inner ih | list inner ih | set inner ih | external q' inner ih =>
    simp [mentions, subterms, ih]
  | map key value ihk ihv => simp [mentions, subterms, ihk, ihv]

/-- The search for nested optionals finds nothing exactly if none occurs at any depth. -/
lemma nestedOptional?_eq_none_iff {r : TypeRef} :
    r.nestedOptional? = none ↔ ∀ t, .optional (.optional t) ∉ r.subterms := by
  induction r with
  | primitive p | binary | declared q => simp [nestedOptional?, subterms]
  | optional inner ih =>
    cases inner with
    | optional t =>
      simp only [nestedOptional?, reduceCtorEq, false_iff, not_forall, not_not]
      exact ⟨t, self_mem_subterms _⟩
    | primitive p | binary | declared q => simp [nestedOptional?, subterms]
    | _ => simpa [nestedOptional?, subterms] using ih
  | list inner ih | set inner ih | external q inner ih => simp [nestedOptional?, subterms, ih]
  | map key value ihk ihv =>
    simp only [nestedOptional?, Option.or_eq_none_iff, ihk, ihv, subterms, List.mem_cons,
      reduceCtorEq, false_or, List.mem_append, not_or, forall_and]

/-- A reference has an order, relative to a set of names, if every primitive in it has one and
every name in it is in the set. -/
lemma isOrderable_iff {r : TypeRef} {names : List QualifiedName} :
    r.isOrderable names = true ↔
      (∀ p, .primitive p ∈ r.subterms → p.isOrderable = true) ∧
      ∀ q, .declared q ∈ r.subterms → q ∈ names := by
  induction r with
  | primitive p | binary | declared q => simp [isOrderable, subterms]
  | optional inner ih | list inner ih | set inner ih | external q inner ih =>
    simp [isOrderable, subterms, ih]
  | map key value ihk ihv =>
    simp only [isOrderable, Bool.and_eq_true, ihk, ihv, subterms, List.mem_cons, reduceCtorEq,
      false_or, List.mem_append]
    constructor
    · rintro ⟨⟨hkp, hkq⟩, hvp, hvq⟩
      exact ⟨fun p hp => hp.elim (hkp p) (hvp p), fun q hq => hq.elim (hkq q) (hvq q)⟩
    · rintro ⟨hp, hq⟩
      exact ⟨⟨fun p h => hp p (.inl h), fun q h => hq q (.inl h)⟩,
        fun p h => hp p (.inr h), fun q h => hq q (.inr h)⟩

end TypeRef

/-! ## Occurrence in declarations -/

/-- The reference occurs, at any depth, in a reference of the declaration. -/
def Declaration.Refers (d : Declaration) (t : TypeRef) : Prop :=
  ∃ member r, (member, r) ∈ d.references ∧ t ∈ r.subterms

/-- The reference occurs, at any depth, in a reference of some of the declarations. -/
def Occurs (ds : List Declaration) (t : TypeRef) : Prop :=
  ∃ d ∈ ds, d.Refers t

/-- What occurs, occurs with its parts. -/
lemma Occurs.part {ds : List Declaration} {r t : TypeRef} (h : Occurs ds r) (ht : t ∈ r.subterms) :
    Occurs ds t := by
  obtain ⟨d, hd, member, s, hs, hr⟩ := h
  exact ⟨d, hd, member, s, hs, TypeRef.mem_subterms_trans ht hr⟩

lemma Declaration.mem_mentions_iff {d : Declaration} {q : QualifiedName} :
    q ∈ d.mentions ↔ d.Refers (.declared q) := by
  simp only [Declaration.mentions, Declaration.Refers, List.mem_flatMap, Prod.exists,
    TypeRef.mem_mentions_iff]

/-- One step of a chain of references: to a part of the reference, or from a declared name to a
reference of its declaration. -/
inductive Leads (ds : List Declaration) : TypeRef → TypeRef → Prop where
  | part {r t : TypeRef} (h : t ∈ r.subterms) : Leads ds r t
  | enter {d : Declaration} {member : String} {r : TypeRef} (hd : d ∈ ds)
      (hr : (member, r) ∈ d.references) : Leads ds (.declared d.name) r

/-- A chain of references from one reference to another. -/
abbrev Chain (ds : List Declaration) : TypeRef → TypeRef → Prop :=
  ReflTransGen (Leads ds)

/-- What a chain of references leads to from something that occurs, occurs. -/
lemma Occurs.chain {ds : List Declaration} {r t : TypeRef} (hr : Occurs ds r)
    (h : Chain ds r t) : Occurs ds t := by
  induction h with
  | refl => exact hr
  | tail _ hstep ih =>
    cases hstep with
    | part hpart => exact ih.part hpart
    | enter hd hr' => exact ⟨_, hd, _, _, hr', TypeRef.self_mem_subterms _⟩

/-! ## Registries with distinct names -/

namespace Registry

/-- No two declarations share a name. -/
def Indexed (reg : Registry) : Prop :=
  (reg.declarations.map Declaration.name).Nodup

lemma mem_of_get? {reg : Registry} {q : QualifiedName} {d : Declaration}
    (h : reg.get? q = some d) : d ∈ reg.declarations ∧ d.name = q := by
  have hname := List.find?_some h
  exact ⟨List.mem_of_find?_eq_some h, by simpa using hname⟩

lemma get?_eq_none_iff {reg : Registry} {q : QualifiedName} :
    reg.get? q = none ↔ ∀ d ∈ reg.declarations, d.name ≠ q := by
  rw [get?, List.find?_eq_none]
  simp

/-- Looking a name up gives the declaration that has it. -/
lemma Indexed.get?_eq_some_iff {reg : Registry} (hreg : reg.Indexed) {q : QualifiedName}
    {d : Declaration} : reg.get? q = some d ↔ d ∈ reg.declarations ∧ d.name = q := by
  constructor
  · exact mem_of_get?
  · rintro ⟨hd, hq⟩
    cases hfound : reg.get? q with
    | none => exact (get?_eq_none_iff.1 hfound d hd hq).elim
    | some e =>
      obtain ⟨he, heq⟩ := mem_of_get? hfound
      have hde : d = e := List.inj_on_of_nodup_map hreg hd he (hq.trans heq.symm)
      rw [hde]

lemma Indexed.get?_name {reg : Registry} (hreg : reg.Indexed) {d : Declaration}
    (hd : d ∈ reg.declarations) : reg.get? d.name = some d :=
  hreg.get?_eq_some_iff.2 ⟨hd, rfl⟩

/-- Two declarations of one name are the same. -/
lemma Indexed.eq_of_name_eq {reg : Registry} (hreg : reg.Indexed) {d e : Declaration}
    (hd : d ∈ reg.declarations) (he : e ∈ reg.declarations) (h : d.name = e.name) : d = e :=
  List.inj_on_of_nodup_map hreg hd he h

lemma contains_iff {reg : Registry} {q : QualifiedName} :
    reg.contains q = true ↔ ∃ d ∈ reg.declarations, d.name = q := by
  rw [contains, Option.isSome_iff_ne_none, ne_eq, get?_eq_none_iff]
  simp

/-- Distinct names of a registry are no more than its declarations. -/
lemma length_le_size {reg : Registry} {names : List QualifiedName} (hnodup : names.Nodup)
    (hnames : ∀ q ∈ names, ∃ d ∈ reg.declarations, d.name = q) : names.length ≤ reg.size := by
  have hsub : names ⊆ reg.declarations.map Declaration.name := by
    intro q hq
    obtain ⟨d, hd, rfl⟩ := hnames q hq
    exact List.mem_map_of_mem hd
  simpa [size] using (hnodup.subperm hsub).length_le

/-! ## The registry of a document -/

lemma firstDuplicate?_eq_none_iff {seen : List QualifiedName} {ds : List Declaration} :
    firstDuplicate? seen ds = none ↔
      (ds.map Declaration.name).Nodup ∧ ∀ d ∈ ds, d.name ∉ seen := by
  induction ds generalizing seen with
  | nil => simp [firstDuplicate?]
  | cons d ds ih =>
    rw [firstDuplicate?]
    by_cases hd : seen.contains d.name
    · have hmem : d.name ∈ seen := by simpa using hd
      rw [if_pos hd]
      simp [hmem]
    · have hmem : d.name ∉ seen := by simpa using hd
      rw [if_neg hd, ih, List.map_cons, List.nodup_cons, List.forall_mem_cons]
      constructor
      · rintro ⟨hnodup, hseen⟩
        refine ⟨⟨?_, hnodup⟩, hmem, fun e he h => hseen e he (List.mem_cons_of_mem _ h)⟩
        intro hdup
        obtain ⟨e, he, heq⟩ := List.mem_map.1 hdup
        exact hseen e he (heq ▸ List.mem_cons_self)
      · rintro ⟨⟨hfresh, hnodup⟩, -, hseen⟩
        refine ⟨hnodup, fun e he h => ?_⟩
        rcases List.mem_cons.1 h with heq | h
        · exact hfresh (heq ▸ List.mem_map_of_mem he)
        · exact hseen e he h

/-- Declarations form a registry exactly if their names are distinct; the registry holds the same
declarations, in order of name. -/
lemma ofDeclarations_ok_iff {ds : List Declaration} {reg : Registry} :
    ofDeclarations ds = .ok reg ↔
      (ds.map Declaration.name).Nodup ∧ reg = ⟨ds.mergeSort fun a b => a.name.le b.name⟩ := by
  rw [ofDeclarations]
  cases h : firstDuplicate? [] ds with
  | some q =>
    simp only [reduceCtorEq, false_iff, not_and]
    intro hnodup
    have hnone := firstDuplicate?_eq_none_iff.2 ⟨hnodup, fun d _ => List.not_mem_nil⟩
    rw [h] at hnone
    cases hnone
  | none =>
    have hnodup := (firstDuplicate?_eq_none_iff.1 h).1
    simp only [Except.ok.injEq, hnodup, true_and]
    exact eq_comm

lemma perm_of_ofDeclarations {ds : List Declaration} {reg : Registry}
    (h : ofDeclarations ds = .ok reg) : reg.declarations.Perm ds := by
  rw [(ofDeclarations_ok_iff.1 h).2]
  exact List.mergeSort_perm _ _

lemma indexed_of_ofDeclarations {ds : List Declaration} {reg : Registry}
    (h : ofDeclarations ds = .ok reg) : reg.Indexed :=
  ((perm_of_ofDeclarations h).map _).nodup_iff.2 (ofDeclarations_ok_iff.1 h).1

end Registry

end WireContract.Schema
