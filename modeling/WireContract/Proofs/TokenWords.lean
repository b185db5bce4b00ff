import Mathlib.Data.List.Basic
import Mathlib.Tactic.Common
import Mathlib.Tactic.Tauto
import WireContract.Rust.Item

/-!
# The words of emitted syntax

Tokens are spelled if every word among them is an identifier, a keyword among them, or the index of
an unnamed field.  The lemmas here take a piece of syntax apart: its tokens are spelled exactly if
the tokens of its parts are, and the words that its form brings with it are identifiers.  With them
simplification reduces a generated item to the names in it.
-/

namespace WireContract.Rust

/-- Whether a word is an identifier, or the index of an unnamed field. -/
def isWord (s : String) : Bool := isSpelling s || s == "0"

lemma isWord_of_isSpelling {s : String} (h : isSpelling s = true) : isWord s = true := by
  rw [isWord, h, Bool.true_or]

namespace Tokens

/-- Every word among the tokens is an identifier or an index. -/
def Spelled (ts : Tokens) : Prop := ∀ s, .word s ∈ ts → isWord s = true

@[simp] lemma spelled_nil : Spelled [] := by simp [Spelled]

@[simp] lemma spelled_append {a b : Tokens} : Spelled (a ++ b) ↔ a.Spelled ∧ b.Spelled := by
  simp only [Spelled, List.mem_append, or_imp, forall_and]

@[simp] lemma spelled_word {s : String} : (word s).Spelled ↔ isWord s = true := by
  simp [Spelled, word]

@[simp] lemma spelled_literal {s : String} : Spelled [.literal s] := by
  simp [Spelled]

@[simp] lemma spelled_constant {written : String} : Spelled [.constant written] := by
  simp [Spelled]

@[simp] lemma spelled_marks (s : String) : (marks s).Spelled := by
  simp [Spelled, marks]

@[simp] lemma spelled_flatMap {α : Type} {f : α → Tokens} {l : List α} :
    Spelled (l.flatMap f) ↔ ∀ a ∈ l, (f a).Spelled := by
  simp only [Spelled, List.mem_flatMap]
  exact ⟨fun h a ha s hs => h s ⟨a, ha, hs⟩, fun h s ⟨a, ha, hs⟩ => h a ha s hs⟩

@[simp] lemma spelled_commas {ts : List Tokens} : (commas ts).Spelled ↔ ∀ t ∈ ts, t.Spelled := by
  fun_induction commas ts with
  | case1 => simp
  | case2 t => simp
  | case3 t u ts ih => simp [ih]

@[simp] lemma spelled_commaEnded {ts : List Tokens} :
    (commaEnded ts).Spelled ↔ ∀ t ∈ ts, t.Spelled := by
  simp [commaEnded]

@[simp] lemma spelled_parens {t : Tokens} : t.parens.Spelled ↔ t.Spelled := by simp [parens]

@[simp] lemma spelled_brackets {t : Tokens} : t.brackets.Spelled ↔ t.Spelled := by simp [brackets]

@[simp] lemma spelled_braces {t : Tokens} : t.braces.Spelled ↔ t.Spelled := by simp [braces]

@[simp] lemma spelled_angles {ts : List Tokens} : (angles ts).Spelled ↔ ∀ t ∈ ts, t.Spelled := by
  cases ts with
  | nil => simp [angles]
  | cons t ts => simp [angles]

end Tokens

open Tokens

/-! ## Paths, types and patterns

A form is opened by the equation for its tokens. -/

namespace Path

/-- Every segment of the path, and every word in its arguments, is an identifier. -/
structure Spelled (p : Path) : Prop where
  segments : ∀ i ∈ p.segments, isWord i.text = true
  generics : ∀ g ∈ p.generics, g.tokens.Spelled

lemma spelled_segmentTokens {is : List Ident} {gs : List Generics}
    (his : ∀ i ∈ is, isWord i.text = true) (hgs : ∀ g ∈ gs, g.tokens.Spelled) :
    (segmentTokens is gs).Spelled := by
  have hfirst : ∀ gs : List Generics, (∀ g ∈ gs, g.tokens.Spelled) →
      (gs.head?.getD .none).tokens.Spelled := by
    rintro (- | ⟨g, gs⟩) hgs
    · exact spelled_nil
    · exact hgs g List.mem_cons_self
  fun_induction segmentTokens is gs with
  | case1 => exact spelled_nil
  | case2 i gs => simpa [hfirst gs hgs] using his
  | case3 i j is gs ih =>
    rw [List.forall_mem_cons] at his
    simp [his.1, hfirst gs hgs, ih his.2 fun g hg => hgs g (List.mem_of_mem_tail hg)]

@[simp] lemma spelled_tokens {p : Path} (hp : p.Spelled) : p.tokens.Spelled := by
  rw [tokens, spelled_append]
  exact ⟨by split <;> simp, spelled_segmentTokens hp.segments hp.generics⟩

/-- The words of a path without arguments are its segments. -/
lemma spelled_tokens_iff {absolute : Bool} {is : List Ident} :
    (Path.mk absolute is []).tokens.Spelled ↔ ∀ i ∈ is, isWord i.text = true := by
  have hsegments : (segmentTokens is []).Spelled ↔ ∀ i ∈ is, isWord i.text = true := by
    induction is with
    | nil => simp [segmentTokens]
    | cons i is ih =>
      cases is with
      | nil => simp [segmentTokens, Generics.tokens]
      | cons j is => simp [segmentTokens, Generics.tokens, ih]
  cases absolute <;> simp [tokens, hsegments]

@[simp] lemma spelled_ofWords {words : List String} :
    (ofWords words).tokens.Spelled ↔ ∀ w ∈ words, isWord w = true := by
  simp [ofWords, spelled_tokens_iff]

@[simp] lemma spelled_std {words : List String} :
    (std words).tokens.Spelled ↔ ∀ w ∈ words, isWord w = true := by
  simp +decide [std, spelled_tokens_iff]

@[simp] lemma spelled_ofIdent {i : Ident} : (ofIdent i).tokens.Spelled ↔ isWord i.text = true := by
  simp [ofIdent, spelled_tokens_iff]

@[simp] lemma Spelled.push {p : Path} (hp : p.Spelled) {i : Ident} (hi : isWord i.text = true) :
    (p.push i).Spelled :=
  ⟨by simpa [Path.push, or_imp, forall_and, hi] using hp.segments, hp.generics⟩

@[simp] lemma Spelled.join {p : Path} (hp : p.Spelled) {words : List String}
    (hwords : ∀ w ∈ words, isWord w = true) : (p.join words).Spelled :=
  ⟨by simpa [Path.join, or_imp, forall_and] using ⟨hp.segments, hwords⟩, hp.generics⟩

end Path

namespace Ty

attribute [local simp] tokens tokensOfAll

lemma spelled_tokensOfAll {ts : List Ty} :
    (∀ t ∈ tokensOfAll ts, t.Spelled) ↔ ∀ t ∈ ts, t.tokens.Spelled := by
  induction ts with
  | nil => simp
  | cons t ts ih => simp [ih]

@[simp] lemma spelled_named {p : Path} {lifetimes : List String} {args : List Ty} :
    (named p lifetimes args).tokens.Spelled ↔ p.tokens.Spelled ∧
      (∀ l ∈ lifetimes, isWord l = true) ∧ ∀ t ∈ args, t.tokens.Spelled := by
  rw [tokens, spelled_append, spelled_angles, List.forall_mem_append,
    spelled_tokensOfAll]
  simp [Tokens.lifetime]

@[simp] lemma spelled_reference {lifetime : Option String} {mutable : Bool} {t : Ty} :
    (reference lifetime mutable t).tokens.Spelled ↔ (∀ l ∈ lifetime, isWord l = true) ∧
      t.tokens.Spelled := by
  cases lifetime <;> cases mutable <;> simp +decide [Tokens.lifetime]

@[simp] lemma spelled_slice {t : Ty} : (slice t).tokens.Spelled ↔ t.tokens.Spelled :=
  spelled_brackets

@[simp] lemma spelled_dyn {t : Ty} : (dyn t).tokens.Spelled ↔ t.tokens.Spelled := by
  simp +decide

@[simp] lemma spelled_some {t : Ty} : (some t).tokens.Spelled ↔ t.tokens.Spelled := by
  simp +decide

end Ty

namespace Pat

attribute [local simp] tokens tokensOfAll

@[simp] lemma spelled_wild : wild.tokens.Spelled := by
  simp +decide

@[simp] lemma spelled_bind {i : Ident} : (bind i).tokens.Spelled ↔ isWord i.text = true :=
  spelled_word

@[simp] lemma spelled_literal {s : String} : (literal s).tokens.Spelled :=
  Tokens.spelled_literal

@[simp] lemma spelled_path {p : Path} :
    (path p).tokens.Spelled ↔ p.tokens.Spelled := Iff.rfl

lemma spelled_tokensOfAll {ps : List Pat} :
    (∀ t ∈ tokensOfAll ps, t.Spelled) ↔ ∀ p ∈ ps, p.tokens.Spelled := by
  induction ps with
  | nil => simp
  | cons p ps ih => simp [ih]

@[simp] lemma spelled_make {p : Path} {args : List Pat} : (make p args).tokens.Spelled ↔
    p.tokens.Spelled ∧ ∀ a ∈ args, a.tokens.Spelled := by
  simp [spelled_tokensOfAll]

@[simp] lemma spelled_tuple {args : List Pat} :
    (tuple args).tokens.Spelled ↔ ∀ a ∈ args, a.tokens.Spelled := by
  simp [spelled_tokensOfAll]

end Pat

/-! ## Expressions and bodies -/

namespace Expr

attribute [local simp] tokens tokensOfAll

lemma spelled_tokensOfAll {es : List Expr} :
    (∀ t ∈ tokensOfAll es, t.Spelled) ↔ ∀ e ∈ es, e.tokens.Spelled := by
  induction es with
  | nil => simp
  | cons e es ih => simp [ih]

@[simp] lemma spelled_path {p : Path} :
    (path p).tokens.Spelled ↔ p.tokens.Spelled := Iff.rfl

@[simp] lemma spelled_qualified {t : Ty} {p : Path} {i : Ident} :
    (qualified t p i).tokens.Spelled ↔ t.tokens.Spelled ∧
      p.tokens.Spelled ∧ isWord i.text = true := by
  simp +decide

@[simp] lemma spelled_literals {items : List String} : (literals items).tokens.Spelled := by
  simp

@[simp] lemma spelled_literal {s : String} : (literal s).tokens.Spelled :=
  Tokens.spelled_literal

@[simp] lemma spelled_reference {mutable : Bool} {e : Expr} :
    (reference mutable e).tokens.Spelled ↔ e.tokens.Spelled := by
  cases mutable <;> simp +decide

@[simp] lemma spelled_field {e : Expr} {name : String} :
    (field e name).tokens.Spelled ↔ e.tokens.Spelled ∧ isWord name = true := by
  simp

@[simp] lemma spelled_call {f : Expr} {args : List Expr} :
    (call f args).tokens.Spelled ↔ f.tokens.Spelled ∧ ∀ e ∈ args, e.tokens.Spelled := by
  simp [spelled_tokensOfAll]

@[simp] lemma spelled_method {e : Expr} {name : String} {args : List Expr} :
    (method e name args).tokens.Spelled ↔ e.tokens.Spelled ∧ isWord name = true ∧
      ∀ e ∈ args, e.tokens.Spelled := by
  simp [spelled_tokensOfAll]

@[simp] lemma spelled_orReturn {e : Expr} : (orReturn e).tokens.Spelled ↔ e.tokens.Spelled := by
  simp

@[simp] lemma spelled_record {p : Path} {fields : List Ident} {comma : Bool} :
    (record p fields comma).tokens.Spelled ↔ p.tokens.Spelled ∧
      ∀ i ∈ fields, isWord i.text = true := by
  cases comma <;> simp

@[simp] lemma spelled_closure {param : Pat} {body : Expr} :
    (closure param body).tokens.Spelled ↔ param.tokens.Spelled ∧ body.tokens.Spelled := by
  simp

@[simp] lemma spelled_vec {items : List Path} : (vec items).tokens.Spelled ↔
    ∀ p ∈ items, p.tokens.Spelled := by
  change Tokens.Spelled (word "vec" ++ marks "!" ++ brackets (commas (items.map Path.tokens))) ↔ _
  simp +decide

@[simp] lemma spelled_test {subject : Ident} {pattern : Pat} :
    (test subject pattern).tokens.Spelled ↔ isWord subject.text = true ∧
      pattern.tokens.Spelled := by
  change Tokens.Spelled (word "matches" ++ marks "!" ++
    parens (commas [word subject.text, pattern.tokens])) ↔ _
  simp +decide

end Expr

@[simp] lemma Body.spelled_tokens {b : Body} : b.tokens.Spelled ↔
    (∀ p ∈ b.lets, isWord p.1.text = true ∧ p.2.tokens.Spelled) ∧ b.tail.tokens.Spelled := by
  simp +decide [tokens]

namespace Tail

attribute [local simp] tokens

@[simp] lemma spelled_expr {e : Expr} : (expr e).tokens.Spelled ↔ e.tokens.Spelled := Iff.rfl

@[simp] lemma spelled_choose {subject : Expr} {arms : List Arm} :
    (choose subject arms).tokens.Spelled ↔ subject.tokens.Spelled ∧
      ∀ a ∈ arms, a.pattern.tokens.Spelled ∧ a.body.tokens.Spelled := by
  simp +decide [Arm.tokens]

@[simp] lemma spelled_make {p : Path} {fields : List (Ident × Expr)} :
    (make p fields).tokens.Spelled ↔ p.tokens.Spelled ∧
      ∀ f ∈ fields, isWord f.1.text = true ∧ f.2.tokens.Spelled := by
  rw [tokens, spelled_append, spelled_braces, spelled_commaEnded, List.forall_mem_map]
  simp

end Tail

/-! ## Items -/

namespace Attr

/-- The words of an attribute are identifiers. -/
def Spelled (a : Attr) : Prop := a.content.Spelled

@[simp] lemma spelled_tokens {a : Attr} : a.tokens.Spelled ↔ a.Spelled := by
  simp [tokens, Spelled]

@[simp] lemma spelled_innerTokens {a : Attr} : a.innerTokens.Spelled ↔ a.Spelled := by
  simp [innerTokens, Spelled]

@[simp] lemma spelled_doc {line : String} : (doc line).Spelled := by
  simp +decide [Spelled, content]

@[simp] lemma spelled_mustUse : mustUse.Spelled := by
  simp +decide [mustUse, Spelled, content]

@[simp] lemma spelled_ofArgs {name : String} {args : List AttrArg} :
    (ofArgs name args).Spelled ↔ isWord name = true ∧ ∀ a ∈ args, a.tokens.Spelled := by
  simp [ofArgs, Spelled, content]

/-- The words of every attribute are identifiers. -/
def AllSpelled (attrs : List Attr) : Prop := ∀ a ∈ attrs, a.Spelled

@[simp] lemma allSpelled_nil : AllSpelled [] := List.forall_mem_nil _

@[simp] lemma allSpelled_cons {a : Attr} {attrs : List Attr} :
    AllSpelled (a :: attrs) ↔ a.Spelled ∧ AllSpelled attrs :=
  List.forall_mem_cons

@[simp] lemma allSpelled_append {attrs attrs' : List Attr} :
    AllSpelled (attrs ++ attrs') ↔ AllSpelled attrs ∧ AllSpelled attrs' :=
  List.forall_mem_append

@[simp high] lemma spelled_flatMap_tokens {attrs : List Attr} :
    Tokens.Spelled (attrs.flatMap tokens) ↔ AllSpelled attrs := by
  simp [AllSpelled]

@[simp high] lemma spelled_flatMap_innerTokens {attrs : List Attr} :
    Tokens.Spelled (attrs.flatMap innerTokens) ↔ AllSpelled attrs := by
  simp [AllSpelled]

end Attr

@[simp] lemma AttrArg.spelled_path {p : Path} :
    (AttrArg.path p).tokens.Spelled ↔ p.tokens.Spelled := Iff.rfl

@[simp] lemma AttrArg.spelled_keyed {key value : String} :
    (AttrArg.keyed key value).tokens.Spelled ↔ isWord key = true := by
  simp [tokens]

@[simp] lemma spelled_visibilityTokens (isPublic : Bool) : (visibilityTokens isPublic).Spelled := by
  cases isPublic <;> simp +decide [visibilityTokens]

@[simp] lemma RecordField.spelled_tokens {f : RecordField} : f.tokens.Spelled ↔
    Attr.AllSpelled f.attrs ∧ isWord f.name.text = true ∧ f.type.tokens.Spelled := by
  simp [tokens]

@[simp] lemma Variant.spelled_tokens {v : Variant} : v.tokens.Spelled ↔
    Attr.AllSpelled v.attrs ∧ isWord v.name.text = true ∧ ∀ t ∈ v.type, t.tokens.Spelled := by
  rw [tokens]
  cases v.type <;> simp

@[simp] lemma Signature.spelled_tokens {s : Signature} : s.tokens.Spelled ↔
    isWord s.name.text = true ∧
      (∀ p ∈ s.param, isWord p.name = true ∧ p.bound.tokens.Spelled) ∧
      (∀ a ∈ s.args, isWord a.1.text = true ∧ a.2.tokens.Spelled) ∧
      ∀ t ∈ s.result, t.tokens.Spelled := by
  have hreceiver : ∀ r : Receiver, r.tokens.Spelled := by
    intro r
    cases r <;> simp +decide [Receiver.tokens]
  have hparam : s.paramTokens.Spelled ∧ s.whereTokens.Spelled ↔
      ∀ p ∈ s.param, isWord p.name = true ∧ p.bound.tokens.Spelled := by
    rw [paramTokens, whereTokens]
    cases s.param with
    | none => simp
    | some p => cases hlate : p.bindsLate <;> simp +decide [hlate]
  have hfn : isWord "fn" = true := by decide
  rw [tokens, ← hparam]
  cases s.result with
  | none =>
    simp only [spelled_append, spelled_word, spelled_parens, spelled_commas, spelled_marks,
      spelled_nil, List.forall_mem_append, List.forall_mem_map, Prod.forall, hfn, hreceiver,
      implies_true, true_and, and_true, Option.mem_def, reduceCtorEq, false_imp_iff]
    tauto
  | some t =>
    simp only [spelled_append, spelled_word, spelled_parens, spelled_commas, spelled_marks,
      List.forall_mem_append, List.forall_mem_map, Prod.forall, hfn, hreceiver, implies_true,
      true_and, and_true, Option.mem_def, Option.some.injEq, forall_eq']
    tauto

namespace ImplMember

attribute [local simp] tokens

@[simp] lemma spelled_const {attrs : List Attr} {name : String} {t : Ty} {e : Expr} :
    (const attrs name t e).tokens.Spelled ↔ Attr.AllSpelled attrs ∧ isWord name = true ∧
      t.tokens.Spelled ∧ e.tokens.Spelled := by
  simp +decide

@[simp] lemma spelled_type {name : String} {t : Ty} :
    (type name t).tokens.Spelled ↔ isWord name = true ∧ t.tokens.Spelled := by
  simp +decide

@[simp] lemma spelled_function {attrs : List Attr} {isPublic : Bool} {s : Signature} {b : Body} :
    (function attrs isPublic s b).tokens.Spelled ↔ Attr.AllSpelled attrs ∧
      s.tokens.Spelled ∧ b.tokens.Spelled := by
  rw [tokens]
  simp only [spelled_append, Attr.spelled_flatMap_tokens, spelled_visibilityTokens,
    spelled_braces, and_true, and_assoc]

end ImplMember

namespace TraitMember

attribute [local simp] tokens

@[simp] lemma spelled_type {attrs : List Attr} {name : String} :
    (type attrs name).tokens.Spelled ↔ Attr.AllSpelled attrs ∧ isWord name = true := by
  simp +decide

@[simp] lemma spelled_function {attrs : List Attr} {s : Signature} :
    (function attrs s).tokens.Spelled ↔ Attr.AllSpelled attrs ∧ s.tokens.Spelled := by
  rw [tokens]
  simp only [spelled_append, Attr.spelled_flatMap_tokens, spelled_marks, and_true]

end TraitMember

namespace Item

attribute [local simp] tokens tokensOfAll

@[simp] lemma spelled_use {attrs : List Attr} {isPublic : Bool} {p : Path} {what : Import} :
    (use attrs isPublic p what).tokens.Spelled ↔ Attr.AllSpelled attrs ∧
      p.tokens.Spelled ∧ (importTokens what).Spelled := by
  simp +decide

@[simp] lemma spelled_importTokens_renamed {i : Ident} :
    (importTokens (.renamed i)).Spelled ↔ isWord i.text = true := by
  rw [importTokens]
  simp +decide

@[simp] lemma spelled_importTokens_item : (importTokens .item).Spelled := spelled_nil

@[simp] lemma spelled_importTokens_all : (importTokens .all).Spelled := spelled_marks "::*"

@[simp] lemma spelled_module {attrs : List Attr} {isPublic : Bool} {name : Ident} :
    (module attrs isPublic name).tokens.Spelled ↔ Attr.AllSpelled attrs ∧
      isWord name.text = true := by
  simp +decide

@[simp] lemma spelled_single {attrs : List Attr} {isPublic : Bool} {name : Ident} {t : Ty} :
    (struct attrs isPublic name (.single t)).tokens.Spelled ↔ Attr.AllSpelled attrs ∧
      isWord name.text = true ∧ t.tokens.Spelled := by
  simp +decide

@[simp] lemma spelled_fields {attrs : List Attr} {isPublic : Bool} {name : Ident}
    {fields : List RecordField} :
    (struct attrs isPublic name (.named fields)).tokens.Spelled ↔ Attr.AllSpelled attrs ∧
      isWord name.text = true ∧ ∀ f ∈ fields, f.tokens.Spelled := by
  simp +decide

@[simp] lemma spelled_enum {attrs : List Attr} {name : Ident} {variants : List Variant} :
    (enum attrs name variants).tokens.Spelled ↔ Attr.AllSpelled attrs ∧
      isWord name.text = true ∧ ∀ v ∈ variants, v.tokens.Spelled := by
  simp +decide

@[simp] lemma spelled_trait {attrs : List Attr} {name : Ident} {members : List TraitMember} :
    (trait attrs name members).tokens.Spelled ↔ Attr.AllSpelled attrs ∧
      isWord name.text = true ∧ ∀ m ∈ members, m.tokens.Spelled := by
  simp +decide

@[simp] lemma spelled_impl {lifetimes : List String} {ofTrait : Option Ty} {self : Ty}
    {members : List ImplMember} :
    (impl lifetimes ofTrait self members).tokens.Spelled ↔ (∀ l ∈ lifetimes, isWord l = true) ∧
      (∀ t ∈ ofTrait, t.tokens.Spelled) ∧ self.tokens.Spelled ∧
      ∀ m ∈ members, m.tokens.Spelled := by
  cases ofTrait <;> simp +decide [Tokens.lifetime]

lemma spelled_tokensOfAll {items : List Item} :
    (tokensOfAll items).Spelled ↔ ∀ i ∈ items, i.tokens.Spelled := by
  induction items with
  | nil => simp
  | cons i items ih => simp [ih]

end Item

@[simp] lemma File.spelled_tokens {f : File} : f.tokens.Spelled ↔
    Attr.AllSpelled f.inner ∧ ∀ i ∈ f.items, i.tokens.Spelled := by
  simp [tokens, Item.spelled_tokensOfAll]

end WireContract.Rust
