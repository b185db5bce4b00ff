import WireContract.Proofs.EmittedNames

/-!
# Methods of visitors

A visitor has a method for each member of its union and one, `visit_unknown`, for members that the
union does not know.  The method of a member is named by its tag in snake case, and the name that is
taken is avoided by an underscore: a member `unknown` is visited by `visit_unknown_`.

Tags are compared in snake case before that underscore is added, and snake case keeps an underscore
at the end of a tag.  So the method of `unknown` is also the method of a tag that is `unknown_` in
snake case.  Comparing tags in Pascal case as well excludes `unknown_` beside `unknown`, but not
`UNKNOWN_`, which keeps its capitals.  This is the only way in which two methods of a visitor meet
(`visitor_methods_distinct_iff`).
-/

namespace WireContract.Rust.Ident

open Text

/-- The name of a method after `visit_`. -/
def visited (tag : String) : String :=
  if snake tag = "unknown" then "unknown_" else snake tag

lemma visitMethod_eq (tag : String) : visitMethod tag = ⟨"visit_" ++ visited tag⟩ := by
  have hname : ("visit_" ++ snake tag == unknownVisitor) = true ↔ snake tag = "unknown" := by
    rw [beq_iff_eq, show unknownVisitor = "visit_" ++ "unknown" by decide, String.append_right_inj]
  unfold visitMethod visited
  by_cases h : snake tag = "unknown"
  · rw [if_pos (hname.2 h), if_pos h]
    rfl
  · rw [if_neg (mt hname.1 h), if_neg h]

/-- Two tags have one method if they are the same in snake case, or if one is `unknown` there and
the other `unknown_`. -/
lemma visitMethod_eq_iff {s t : String} : visitMethod s = visitMethod t ↔
    snake s = snake t ∨ (snake s = "unknown" ∧ snake t = "unknown_") ∨
      (snake s = "unknown_" ∧ snake t = "unknown") := by
  rw [visitMethod_eq, visitMethod_eq, Ident.mk.injEq, String.append_right_inj]
  unfold visited
  split_ifs with hs ht ht
  · simp [hs, ht]
  · simp [hs, ht, Ne.symm ht, eq_comm]
  · simp [hs, ht]
  · simp [hs, ht]

/-- No method of a member is the one for members that are not known. -/
lemma visitMethod_ne_unknownVisitor (tag : String) : visitMethod tag ≠ ⟨unknownVisitor⟩ := by
  rw [visitMethod_eq, ne_eq, Ident.mk.injEq]
  intro h
  have hvisited : visited tag = "unknown" := (String.append_right_inj "visit_").1 h
  unfold visited at hvisited
  split_ifs at hvisited with htag
  · exact absurd hvisited (by decide)
  · exact htag hvisited

end WireContract.Rust.Ident

namespace WireContract.Emit

open Rust Schema

/-- The name of a member of a trait, if it is a method. -/
def methodName? : TraitMember → Option Ident
  | .function _ s => some s.name
  | _ => none

/-- The names of the methods of a trait. -/
def traitMethods? : Item → Option (List Ident)
  | .trait _ _ members => some (members.filterMap methodName?)
  | _ => none

/-- The methods that every visitor of a union has. -/
def visitorMethods (u : Union) : List Ident :=
  u.members.map (fun m => Ident.visitMethod m.tag) ++ [⟨Ident.unknownVisitor⟩]

lemma methodNames_visitMethods (scope : Scope) (u : Union) (result : Option Ty) :
    (visitMethods scope u result).filterMap methodName? = visitorMethods u := by
  rw [visitMethods, List.filterMap_append, visitorMethods]
  congr 1
  rw [List.filterMap_map]
  exact List.filterMap_eq_map_iff_forall_eq_some.2 fun m _ => rfl

/-- Each of the two files of a union has one trait, a visitor. -/
lemma traitMethods_items (scope : Scope) (u : Union) :
    (unionItems scope u).filterMap traitMethods? = [visitorMethods u] ∧
      (visitorItems scope u).filterMap traitMethods? = [visitorMethods u] := by
  constructor
  · exact congrArg ([·]) (methodNames_visitMethods scope u none)
  · exact congrArg ([·]) (methodNames_visitMethods scope u _)

/-- Some tag of the union is `unknown` in snake case, and some tag is `unknown_`. -/
def MeetsUnknown (u : Union) : Prop :=
  ∃ m ∈ u.members, ∃ m' ∈ u.members,
    Text.snake m.tag = "unknown" ∧ Text.snake m'.tag = "unknown_"

/-- The methods of tags that differ in snake case are distinct unless two of the tags meet. -/
lemma nodup_visitorMethods_iff {u : Union}
    (hsnake : DistinctMembers Text.snake (u.members.map (·.tag))) :
    (visitorMethods u).Nodup ↔ ¬ MeetsUnknown u := by
  have hapart : (u.members.map fun m => Ident.visitMethod m.tag).Disjoint
      [⟨Ident.unknownVisitor⟩] := by
    rw [List.disjoint_singleton]
    intro hmem
    obtain ⟨m, -, heq⟩ := List.mem_map.1 hmem
    exact Ident.visitMethod_ne_unknownVisitor m.tag heq
  have hdistinct : u.members.Pairwise fun m m' => Text.snake m.tag ≠ Text.snake m'.tag := by
    simpa [List.Nodup, List.pairwise_map] using hsnake.distinct
  rw [visitorMethods, List.nodup_append', and_iff_left hapart,
    and_iff_left (List.nodup_singleton _)]
  constructor
  · rintro hnodup ⟨m, hm, m', hm', hunknown, hmarked⟩
    have hsame : m = m' :=
      List.inj_on_of_nodup_map hnodup hm hm'
        (Ident.visitMethod_eq_iff.2 (.inr (.inl ⟨hunknown, hmarked⟩)))
    rw [← hsame, hunknown] at hmarked
    exact absurd hmarked (by decide)
  · intro hfree
    rw [List.Nodup, List.pairwise_map]
    refine hdistinct.imp_of_mem fun {m m'} hm hm' hne heq => ?_
    rcases Ident.visitMethod_eq_iff.1 heq with h | ⟨h, h'⟩ | ⟨h, h'⟩
    · exact hne h
    · exact hfree ⟨m, hm, m', hm', h, h'⟩
    · exact hfree ⟨m', hm', m, hm, h', h⟩

/-- In a document that passes the check of its declarations, both visitors of a union have the
methods of its members and the one for members that are not known.  The latter is the method of no
member.  The methods are distinct exactly if not one tag is `unknown` in snake case and another
`unknown_`. -/
theorem visitor_methods_distinct_iff (doc : Document) (h : doc.check = .ok ()) (u : Union)
    (hu : .union u ∈ doc.declarations) :
    (∀ scope, (unionItems scope u).filterMap traitMethods? = [visitorMethods u] ∧
      (visitorItems scope u).filterMap traitMethods? = [visitorMethods u]) ∧
    (∀ m ∈ u.members, Ident.visitMethod m.tag ≠ ⟨Ident.unknownVisitor⟩) ∧
    (∀ m ∈ u.members, ∀ m' ∈ u.members, m.tag ≠ m'.tag →
      (Ident.visitMethod m.tag = Ident.visitMethod m'.tag ↔
        (Text.snake m.tag = "unknown" ∧ Text.snake m'.tag = "unknown_") ∨
          (Text.snake m.tag = "unknown_" ∧ Text.snake m'.tag = "unknown"))) ∧
    ((visitorMethods u).Nodup ↔ ¬ MeetsUnknown u) := by
  obtain ⟨-, -, hsnake, -⟩ := (Document.check_ok_iff.1 h _ hu).members
  refine ⟨fun scope => traitMethods_items scope u,
    fun m _ => Ident.visitMethod_ne_unknownVisitor m.tag, ?_, nodup_visitorMethods_iff hsnake⟩
  intro m hm m' hm' hne
  have hapart : Text.snake m.tag ≠ Text.snake m'.tag := fun heq =>
    hne (List.inj_on_of_nodup_map hsnake.distinct (List.mem_map_of_mem hm)
      (List.mem_map_of_mem hm') heq)
  rw [Ident.visitMethod_eq_iff, or_iff_right hapart]

/-- A union with a member called `unknown` and another one. -/
def unknownOr (tag : String) : Union :=
  ⟨⟨"demo", "Shape"⟩,
    [⟨"unknown", .primitive .string, none⟩, ⟨tag, .primitive .string, none⟩], none⟩

/-- A member called `unknown` gets an underscore, and another that contains the word is kept apart
from it. -/
theorem visitor_methods_distinct_iff_unknownShape :
    Document.check ⟨1, [.union (unknownOr "unknown_Shape")]⟩ = .ok () ∧
      visitorMethods (unknownOr "unknown_Shape") =
        [⟨"visit_unknown_"⟩, ⟨"visit_unknown_shape"⟩, ⟨"visit_unknown"⟩] ∧
      (visitorMethods (unknownOr "unknown_Shape")).Nodup := by
  have hcheck : Document.check ⟨1, [.union (unknownOr "unknown_Shape")]⟩ = .ok () := rfl
  have hmethods : visitorMethods (unknownOr "unknown_Shape") =
      [⟨"visit_unknown_"⟩, ⟨"visit_unknown_shape"⟩, ⟨"visit_unknown"⟩] := by decide
  have hfree : ¬ MeetsUnknown (unknownOr "unknown_Shape") := by
    have htags : ∀ m ∈ (unknownOr "unknown_Shape").members, Text.snake m.tag ≠ "unknown_" := by
      decide
    rintro ⟨-, -, m', hm', -, hmarked⟩
    exact htags m' hm' hmarked
  obtain ⟨-, -, -, hnodup⟩ := visitor_methods_distinct_iff _ hcheck _ List.mem_cons_self
  exact ⟨hcheck, hmethods, hnodup.2 hfree⟩

/-- The tags `unknown` and `UNKNOWN_` pass the check and have one method. -/
theorem visitor_methods_meet :
    Document.check ⟨1, [.union (unknownOr "UNKNOWN_")]⟩ = .ok () ∧
      visitorMethods (unknownOr "UNKNOWN_") =
        [⟨"visit_unknown_"⟩, ⟨"visit_unknown_"⟩, ⟨"visit_unknown"⟩] ∧
      ¬ (visitorMethods (unknownOr "UNKNOWN_")).Nodup := by
  have hcheck : Document.check ⟨1, [.union (unknownOr "UNKNOWN_")]⟩ = .ok () := rfl
  have hmethods : visitorMethods (unknownOr "UNKNOWN_") =
      [⟨"visit_unknown_"⟩, ⟨"visit_unknown_"⟩, ⟨"visit_unknown"⟩] := by decide
  refine ⟨hcheck, hmethods, ?_⟩
  rw [hmethods]
  decide

end WireContract.Emit
