import WireContract.Proofs.Outcome
import WireContract.Proofs.References
import WireContract.Proofs.Spelling

/-!
# Declarations that are well formed by themselves

The rules that look at one declaration alone, as properties: how its name is spelled, what its
members are called, and that no optional stands directly inside another.  `Declaration.check` passes
exactly the declarations that have them (`Declaration.check_ok_iff`).

Two members clash when they become one identifier of the emitted code, so the members of a
declaration are compared by their respelled names.  How names are respelled depends on the kind of
the declaration; the tags of a union become variants and visitor methods and are compared twice.
-/

namespace WireContract.Schema

open Outcome

@[simp] lemma require_ok_iff {condition : Bool} {v : Violation} :
    require condition v = .ok () ↔ condition = true := by
  cases condition <;> simp [require]

/-! ## Names of declarations -/

/-- The package is a path of lowercase identifiers that are no keywords, and the name is in Pascal
case and not reserved. -/
structure QualifiedName.WellFormed (q : QualifiedName) : Prop where
  segments : ∀ s ∈ q.segments, LowercaseIdentifier s ∧ s ∉ Rust.keywords
  pascalCase : PascalCase q.name
  unreserved : q.name ∉ reservedTypeNames

lemma not_lowercaseIdentifier_empty : ¬ LowercaseIdentifier "" := by
  rintro ⟨c, cs, h, -⟩
  cases h

/-- The empty package is no path of identifiers: its one segment is empty. -/
lemma QualifiedName.WellFormed.module_ne_empty {q : QualifiedName} (hq : q.WellFormed) :
    q.module ≠ "" := by
  intro hempty
  have hmem : "" ∈ q.segments := by
    rw [QualifiedName.segments, hempty]
    decide
  exact not_lowercaseIdentifier_empty (hq.segments "" hmem).1

lemma QualifiedName.check_ok_iff {q : QualifiedName} : q.check = .ok () ↔ q.WellFormed := by
  simp only [QualifiedName.check, check_bind_ok_iff, require_ok_iff, List.forM_eq_forM, forM_ok_iff,
    bne_iff_ne, ne_eq, Bool.and_eq_true, isPackageSegment_iff, isTypeCase_iff, Bool.not_eq_true',
    Rust.isKeyword, List.contains_eq_mem, decide_eq_false_iff_not]
  constructor
  · rintro ⟨-, hsegments, hcase, hfree⟩
    exact ⟨hsegments, hcase, hfree⟩
  · intro hq
    exact ⟨hq.module_ne_empty, hq.segments, hq.pascalCase, hq.unreserved⟩

/-! ## Names of members -/

/-- Every name is an identifier, and no two become the same when respelled. -/
structure DistinctMembers (respell : String → String) (names : List String) : Prop where
  identifiers : ∀ name ∈ names, MemberIdentifier name
  distinct : (names.map respell).Nodup

/-- The members after those seen are passed if they are identifiers, distinct when respelled, and
none is respelled as one of those seen. -/
lemma checkMembers_ok_iff {owner : QualifiedName} {what : String} {respell : String → String}
    {seen : List (String × String)} {names : List String} :
    checkMembers owner what respell seen names = .ok () ↔
      DistinctMembers respell names ∧ ∀ name ∈ names, ∀ p ∈ seen, respell name ≠ p.1 := by
  induction names generalizing seen with
  | nil =>
    simp only [checkMembers, List.not_mem_nil, false_imp_iff, forall_const, and_true, true_iff]
    exact ⟨by simp, by simp⟩
  | cons name names ih =>
    rw [checkMembers, check_bind_ok_iff, require_ok_iff, isMemberName_iff]
    cases hseen : seen.lookup (respell name) with
    | some previous =>
      obtain ⟨before, after, hp, -⟩ := List.lookup_eq_some_iff.1 hseen
      have hmem : (respell name, previous) ∈ seen := by rw [hp]; simp
      have hfail : (if previous == name then
          (Except.error (.duplicateMember what name owner) : Except Violation Unit)
        else .error (.sameIdentifier what previous name owner)) ≠ .ok () := by
        split <;> simp
      constructor
      · rintro ⟨-, h⟩
        exact (hfail h).elim
      · rintro ⟨-, h⟩
        exact (h name List.mem_cons_self _ hmem rfl).elim
    | none =>
      have hfresh : ∀ p ∈ seen, respell name ≠ p.1 := by
        simpa using List.lookup_eq_none_iff.1 hseen
      rw [ih]
      constructor
      · rintro ⟨hname, ⟨hids, hdistinct⟩, hafter⟩
        refine ⟨⟨List.forall_mem_cons.2 ⟨hname, hids⟩, ?_⟩, List.forall_mem_cons.2 ⟨hfresh, ?_⟩⟩
        · rw [List.map_cons, List.nodup_cons]
          refine ⟨fun hmem => ?_, hdistinct⟩
          obtain ⟨other, hother, heq⟩ := List.mem_map.1 hmem
          exact hafter other hother _ List.mem_cons_self heq
        · exact fun other hother p hp => hafter other hother p (List.mem_cons_of_mem _ hp)
      · rintro ⟨⟨hids, hdistinct⟩, hall⟩
        rw [List.forall_mem_cons] at hids hall
        rw [List.map_cons, List.nodup_cons] at hdistinct
        refine ⟨hids.1, ⟨hids.2, hdistinct.2⟩, fun other hother => List.forall_mem_cons.2 ⟨?_, ?_⟩⟩
        · exact fun heq => hdistinct.1 (List.mem_map.2 ⟨other, hother, heq⟩)
        · exact hall.2 other hother

lemma checkMembers_nil_ok_iff {owner : QualifiedName} {what : String}
    {respell : String → String} {names : List String} :
    checkMembers owner what respell [] names = .ok () ↔ DistinctMembers respell names := by
  rw [checkMembers_ok_iff]
  simp

/-! ## Declarations -/

/-- The members of a declaration keep the rules for its kind. -/
def Declaration.HasWellFormedMembers : Declaration → Prop
  | .alias _ => True
  | .enum d =>
    d.values ≠ [] ∧ DistinctMembers Text.variant (d.values.map (·.value)) ∧
      ∀ v ∈ d.values, UpperSnakeCase v.value
  | .object d => DistinctMembers Rust.fieldName (d.fields.map (·.name))
  | .union d =>
    d.members ≠ [] ∧ DistinctMembers Text.pascal (d.members.map (·.tag)) ∧
      DistinctMembers Text.snake (d.members.map (·.tag)) ∧ ∀ m ∈ d.members, m.tag ≠ "type"
  | .error d =>
    PascalCase d.namespaceName ∧ DistinctMembers Rust.fieldName (d.params.map (·.name))

/-- A declaration that is well formed by itself. -/
structure Declaration.WellFormed (d : Declaration) : Prop where
  name : d.name.WellFormed
  members : d.HasWellFormedMembers
  optionals : ∀ t, ¬ d.Refers (.optional (.optional t))

namespace Declaration

lemma checkContent_ok_iff {d : Declaration} :
    d.checkContent = .ok () ↔ d.HasWellFormedMembers := by
  cases d with
  | «alias» d => simp [checkContent, HasWellFormedMembers]
  | enum d =>
    simp [checkContent, HasWellFormedMembers, checkMembers_nil_ok_iff, isConstantCase_iff]
  | object d => simp [checkContent, HasWellFormedMembers, checkMembers_nil_ok_iff]
  | union d =>
    simp [checkContent, HasWellFormedMembers, checkMembers_nil_ok_iff, tagKey]
  | error d => simp [checkContent, HasWellFormedMembers, checkMembers_nil_ok_iff, isTypeCase_iff]

lemma checkOptionals_ok_iff {d : Declaration} :
    d.checkOptionals = .ok () ↔ ∀ t, ¬ d.Refers (.optional (.optional t)) := by
  rw [checkOptionals, List.forM_eq_forM, forM_ok_iff]
  constructor
  · rintro h t ⟨member, r, hr, ht⟩
    have hcheck := h (member, r) hr
    dsimp only at hcheck
    split at hcheck
    · cases hcheck
    · rename_i hnone
      exact TypeRef.nestedOptional?_eq_none_iff.1 hnone t ht
  · rintro h ⟨member, r⟩ hr
    have hnone : r.nestedOptional? = none :=
      TypeRef.nestedOptional?_eq_none_iff.2 fun t ht => h t ⟨member, r, hr, ht⟩
    dsimp only
    rw [hnone]

/-- The check of one declaration passes exactly those that are well formed. -/
theorem check_ok_iff {d : Declaration} : d.check = .ok () ↔ d.WellFormed := by
  simp only [check, check_bind_ok_iff, QualifiedName.check_ok_iff, checkContent_ok_iff,
    checkOptionals_ok_iff]
  constructor
  · rintro ⟨hname, hmembers, hoptionals⟩
    exact ⟨hname, hmembers, hoptionals⟩
  · intro h
    exact ⟨h.name, h.members, h.optionals⟩

end Declaration

lemma Document.check_ok_iff {doc : Document} :
    doc.check = .ok () ↔ ∀ d ∈ doc.declarations, d.WellFormed := by
  simp only [Document.check, List.forM_eq_forM, forM_ok_iff, Declaration.check_ok_iff]

end WireContract.Schema
