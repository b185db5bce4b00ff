import Mathlib.Tactic.Common
import WireContract.Emit.TaggedUnion
import WireContract.Proofs.OptionalFields
import WireContract.Sample.Canvas

/-!
# What boxing does to the type of a slot

Three recursions over references have to agree: `TypeRef.heldByValue` finds the declared type that a
slot holds in place, `TypeRef.stored` puts a pointer around it in a boxed slot, and
`TypeRef.viewed` takes the pointer off again for visitors.  Each has its own rule for optionals,
containers and external names.

All three come down to one fact: a reference that holds a declared type in place is stored as
options around the path of that type and nothing else (`stored_of_heldByValue`).  So boxing changes
exactly these references, at one place, and the pointer is outermost exactly where there are no
options.  A match by reference binds a reference to what a variant stores; with at most one pointer
in the way it coerces to what the method of a visitor takes.
-/

namespace WireContract.Rust

namespace Ty

/-- The type inside an outermost box; any other type as it stands. -/
def unboxed : Ty → Ty
  | .named p [] [content] => if p = .ofWords ["Box"] then content else .named p [] [content]
  | t => t

/-- A type inside some options. -/
def inOptions : ℕ → Ty → Ty
  | 0, t => t
  | n + 1, t => .apply "Option" [inOptions n t]

/-- Where a value of the first type is given, one of the second may be expected. -/
inductive Coerces : Ty → Ty → Prop where
  | refl (t : Ty) : Coerces t t
  /-- A reference to a box is followed. -/
  | deref (t : Ty) : Coerces (.ref (.apply "Box" [t])) (.ref t)
  | trans {r s t : Ty} (h : Coerces r s) (h' : Coerces s t) : Coerces r t

lemma coerces_unboxed (t : Ty) : Coerces t.ref t.unboxed.ref := by
  unfold unboxed
  split
  case h_1 p content =>
    split_ifs with hp
    · rw [hp]
      exact .deref content
    · exact .refl _
  case h_2 => exact .refl _

lemma tokens_apply (word : String) (t : Ty) :
    (apply word [t]).tokens =
      Tokens.word word ++ Tokens.marks "<" ++ t.tokens ++ Tokens.marks ">" := by
  simp [apply, tokens, tokensOfAll, Path.ofWords, Path.tokens, Path.segmentTokens, Generics.tokens,
    Tokens.angles, Tokens.commas]

/-- Options put the same tokens around any type. -/
lemma exists_tokens_inOptions (n : ℕ) :
    ∃ before after : Tokens, ∀ t : Ty, (inOptions n t).tokens = before ++ t.tokens ++ after := by
  induction n with
  | zero => exact ⟨[], [], fun t => by simp [inOptions]⟩
  | succ n ih =>
    obtain ⟨before, after, h⟩ := ih
    refine ⟨Tokens.word "Option" ++ Tokens.marks "<" ++ before, after ++ Tokens.marks ">",
      fun t => ?_⟩
    rw [inOptions, tokens_apply, h]
    simp only [List.append_assoc]

end Ty

lemma Expr.var_injective : Function.Injective Expr.var := by
  intro x y h
  obtain ⟨-, hsegments, -⟩ := Path.mk.inj (Expr.path.inj h)
  exact Ident.mk.inj (List.head_eq_of_cons_eq hsegments)

end WireContract.Rust

namespace WireContract

open Rust Schema

/-! ## Forms of slots -/

/-- The form inside an outermost box; any other form as it stands. -/
def Emit.Stored.unboxed : Emit.Stored → Emit.Stored
  | .boxed content => content
  | form => form

namespace Schema.TypeRef

lemma stored_of_heldByValue_eq_none {r : TypeRef} (h : r.heldByValue = none) :
    r.stored true = r.stored false := by
  induction r with
  | primitive | binary | list | set | map => rfl
  | declared => cases h
  | optional inner ih => rw [stored, stored, ih h]
  | external q fallback ih => exact ih h

/-- A visitor is given the form of the slot, without an outermost box. -/
lemma viewed_eq_unboxed (r : TypeRef) (boxed : Bool) :
    r.viewed boxed = (r.stored boxed).unboxed := by
  induction r with
  | primitive | binary | optional | list | set | map => rfl
  | declared => cases boxed <;> rfl
  | external q fallback ih => exact ih

end Schema.TypeRef

namespace Emit

variable {imports : Imports} {runtime : Path}

/-- The type of a form is a box exactly if the form is one. -/
lemma Stored.unboxed_type (form : Stored) :
    (form.type imports runtime).unboxed = form.unboxed.type imports runtime := by
  cases form with
  | primitive p =>
    cases p with
    | datetime => simp [unboxed, type, primitiveType, Ty.unboxed, join_ne_ofWords]
    | _ => rfl
  | binary | named => rfl
  | option | vec => simp [unboxed, type, Ty.apply, Ty.unboxed, Path.ofWords]
  | set | map => simp [unboxed, type, Ty.unboxed, Path.ofWords, Path.std]
  | boxed => simp [unboxed, type, Ty.apply, Ty.unboxed]

end Emit

/-! ## Slots of a file -/

namespace Emit

section Slots

variable (scope : Scope) {r : TypeRef}

/-- A reference that holds a declared type in place is stored as options around its path, which has
a box around it in a boxed slot. -/
lemma Scope.stored_of_heldByValue {q : QualifiedName} (h : r.heldByValue = some q) :
    ∃ n, scope.stored r false = .inOptions n (.ofPath (scope.imports.pathTo q)) ∧
      scope.stored r true = .inOptions n (.apply "Box" [.ofPath (scope.imports.pathTo q)]) := by
  induction r with
  | primitive | binary | list | set | map => cases h
  | declared name =>
    obtain rfl := Option.some.inj h
    exact ⟨0, rfl, rfl⟩
  | optional inner ih =>
    obtain ⟨n, hfalse, htrue⟩ := ih h
    refine ⟨n + 1, ?_, ?_⟩
    · rw [Ty.inOptions, ← hfalse]
      rfl
    · rw [Ty.inOptions, ← htrue]
      rfl
  | external _ fallback ih => exact ih h

lemma Scope.stored_of_heldByValue_eq_none (h : r.heldByValue = none) :
    scope.stored r true = scope.stored r false := by
  rw [stored, stored, TypeRef.stored_of_heldByValue_eq_none h]

/-- A box adds tokens, so what is spelled differs where the types do. -/
lemma Scope.tokens_stored_ne_iff :
    (scope.stored r true).tokens ≠ (scope.stored r false).tokens ↔
      ∃ q, r.heldByValue = some q := by
  constructor
  · intro hne
    refine Option.ne_none_iff_exists'.1 fun hnone => hne ?_
    rw [scope.stored_of_heldByValue_eq_none hnone]
  · rintro ⟨q, h⟩ heq
    obtain ⟨n, hfalse, htrue⟩ := scope.stored_of_heldByValue h
    obtain ⟨before, after, htokens⟩ := Ty.exists_tokens_inOptions n
    have hlength := congrArg List.length heq
    rw [hfalse, htrue, htokens, htokens, Ty.tokens_apply] at hlength
    simp only [List.length_append, Tokens.word, List.length_singleton] at hlength
    omega

lemma Scope.viewed_eq_unboxed (r : TypeRef) (boxed : Bool) :
    scope.viewed r boxed = (scope.stored r boxed).unboxed := by
  rw [viewed, stored, Stored.unboxed_type, TypeRef.viewed_eq_unboxed]

lemma Scope.coerces_viewed (r : TypeRef) (boxed : Bool) :
    Ty.Coerces (scope.stored r boxed).ref (scope.viewed r boxed).ref := by
  rw [viewed_eq_unboxed]
  exact Ty.coerces_unboxed _

end Slots

/-- What boxing does to a slot of the reference. -/
structure Scope.BoxesOnce (scope : Scope) (r : TypeRef) : Prop where
  /-- Another type is spelled exactly if the reference holds a declared type in place. -/
  differs_iff : (scope.stored r true).tokens ≠ (scope.stored r false).tokens ↔
    ∃ q, r.heldByValue = some q
  same : r.heldByValue = none → scope.stored r true = scope.stored r false
  /-- The path to the declared type gets one box, inside the options around it. -/
  wrapped : ∀ q, r.heldByValue = some q → ∃ n,
    scope.stored r false = .inOptions n (.ofPath (scope.imports.pathTo q)) ∧
      scope.stored r true = .inOptions n (.apply "Box" [.ofPath (scope.imports.pathTo q)])
  /-- Visitors are given the type without an outermost box. -/
  viewed : ∀ boxed, scope.viewed r boxed = (scope.stored r boxed).unboxed
  coerces : ∀ boxed, Ty.Coerces (scope.stored r boxed).ref (scope.viewed r boxed).ref

/-! ## Visits -/

/-- A case of a visit, which passes the variable `x` to a method, fits the union and the visitor.
The case takes a variant apart.  Matched by reference, `x` is a reference to what the variant
stores, and it coerces to the type that the method takes.  The visitor may be in another file, where
that type is spelled with other paths. -/
def PassesWell (scope visitors : Scope) (u : Union) (result : Option Ty) (arm : Arm)
    (method x : String) : Prop :=
  ∃ v ∈ unionVariants scope u, arm.pattern = .make (selfItem v.name) [.bind ⟨x⟩] ∧
    ∃ docs f, .function docs f ∈ visitMethods visitors u result ∧ f.name.text = method ∧
      ∃ (held : Ty) (form : Stored), v.type = some held ∧
        f.args = [(⟨"value"⟩, .ref (form.type visitors.imports visitors.runtime))] ∧
        Ty.Coerces held.ref (.ref (form.type scope.imports scope.runtime))

lemma passesWell_of_mem {scope visitors : Scope} (hcontract : visitors.contract = scope.contract)
    {u : Union} {arm : Arm} (harm : arm ∈ visitArms u) {method x : String}
    (hbody : arm.body = .method (.var "visitor") method [.var x]) (result : Option Ty) :
    PassesWell scope visitors u result arm method x := by
  rcases List.mem_append.1 harm with harm | harm
  · obtain ⟨c, hc, rfl⟩ := List.mem_map.1 harm
    obtain ⟨m, hm, rfl⟩ := List.mem_map.1 hc
    obtain ⟨-, rfl, hargs⟩ := Expr.method.inj hbody
    obtain rfl : "value" = x := Expr.var_injective (List.head_eq_of_cons_eq hargs)
    refine ⟨_, List.mem_append_left _ (List.mem_map_of_mem hm), rfl, _, _,
      List.mem_append_left _ (List.mem_map_of_mem hm), rfl, _,
      m.type.viewed (scope.contract.isBoxed u.name m.tag), rfl, ?_, scope.coerces_viewed _ _⟩
    rw [hcontract]
    rfl
  · -- the case of a member that is not known passes its tag, which is no variable
    obtain rfl := List.mem_singleton.1 harm
    simp [unknownTag, Expr.var] at hbody

/-- In every file, boxing changes the type of a slot exactly if its reference holds a declared type
in place, and then puts one box around the one path to that type.  What a visitor is given is the
type without an outermost box, so both visitors of a union can take whatever a case passes them. -/
theorem boxing_wraps_what_is_held (scope : Scope) :
    (∀ r : TypeRef, scope.BoxesOnce r) ∧
    ∀ (u : Union) (visitors : Scope), visitors.contract = scope.contract → ∀ result,
      ∀ arm ∈ visitArms u, ∀ method x : String,
        arm.body = .method (.var "visitor") method [.var x] →
          PassesWell scope visitors u result arm method x :=
  ⟨fun r => ⟨scope.tokens_stored_ne_iff, scope.stored_of_heldByValue_eq_none,
      fun _ hq => scope.stored_of_heldByValue hq, scope.viewed_eq_unboxed r,
      scope.coerces_viewed r⟩,
    fun _ _ hcontract result _ harm _ _ hbody => passesWell_of_mem hcontract harm hbody result⟩

/-- The file of shapes, in the contract with every kind of declaration. -/
def shapesFile : Scope where
  contract := ⟨1, Sample.Canvas.registry, .ofRegistry Sample.Canvas.registry,
    Sample.Canvas.registry.orderable, Sample.Canvas.registry.boxedSlots⟩
  runtime := .ofWords ["wiregen_core"]
  imports := ⟨"com.example.shapes", []⟩

/-- An expression in two optionals, one of them behind an external name. -/
def maybeExpr : TypeRef :=
  .optional (.external ⟨"x", "Expr"⟩ (.optional (.declared Sample.Canvas.expr.name)))

/-- Negation holds an expression in a box, which a visitor does not see.  In options the box stays
inside, and the visitor sees it. -/
theorem boxing_wraps_what_is_held_expr :
    shapesFile.contract.isBoxed Sample.Canvas.expr.name "negate" = true ∧
    maybeExpr.heldByValue = some Sample.Canvas.expr.name ∧
    (shapesFile.stored maybeExpr true).tokens ≠ (shapesFile.stored maybeExpr false).tokens ∧
    shapesFile.viewed maybeExpr true = shapesFile.stored maybeExpr true ∧
    ∃ arm ∈ visitArms Sample.Canvas.expr,
      arm.body = .method (.var "visitor") "visit_negate" [.var "value"] ∧
      PassesWell shapesFile shapesFile Sample.Canvas.expr none arm "visit_negate" "value" := by
  obtain ⟨hslots, hvisits⟩ := boxing_wraps_what_is_held shapesFile
  have harm : ⟨memberPat ⟨"negate", ⟨"Negate"⟩, ⟨"visit_negate"⟩⟩ (.bind ⟨"value"⟩),
      .method (.var "visitor") "visit_negate" [.var "value"]⟩ ∈ visitArms Sample.Canvas.expr :=
    List.mem_of_getElem? (i := 1) rfl
  refine ⟨by decide, rfl, (hslots maybeExpr).differs_iff.2 ⟨_, rfl⟩, ?_, _, harm, rfl,
    hvisits _ _ rfl none _ harm _ _ rfl⟩
  rw [(hslots maybeExpr).viewed]
  rfl

end Emit

end WireContract
