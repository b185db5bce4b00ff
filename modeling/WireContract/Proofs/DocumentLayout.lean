import Mathlib.Data.List.Forall2
import Mathlib.Data.Option.Defs
import Mathlib.Tactic.Common
import WireContract.Json.Reader
import WireContract.Proofs.JsonWhole

/-!
# The layout of a document

A document is read by going down into its value.  Each place in it has a layout: an object there is
read as a record with certain keys, or as one of several alternatives, an array as a list, and so on
(`Place.layout`).  Two values are alike at a place if they differ in nothing that the layouts speak
of: objects may have their keys in any order and may have keys that are not declared where they
stand, and services and extensions may be any values (`Alike`).  What a value has in common with
itself is enough at every place, whether or not it can be read there (`Alike.refl`).
-/

namespace WireContract.Schema.Outline

open Json

/-! ## Layouts -/

/-- A place of a document where a value is read. -/
inductive Place where
  | anything
  | text
  | list (inside : Place)
  /-- The content of an alternative, under its key. -/
  | content (key : String) (inside : Place)
  | document
  | typeDecl
  | alias
  | enum
  | enumValue
  | object
  | union
  | field
  | error
  | name
  | type
  | item
  | map
  | external

/-- What is read of a value at a place. -/
inductive Layout where
  /-- Nothing. -/
  | anything
  /-- A word, number or null. -/
  | text
  | list (inside : Place)
  /-- The keys of a record, in the order in which an array gives them. -/
  | record (fields : List (String × Place))
  /-- The alternatives, by their tags. -/
  | tagged (variants : List (String × Place))

/-- The layout of a place. -/
def Place.layout : Place → Layout
  | .anything => .anything
  | .text => .text
  | .list inside => .list inside
  | .content key inside => .record [(key, inside)]
  | .document => .record [("types", .list .typeDecl), ("errors", .list .error),
      ("services", .list .anything), ("extensions", .anything), ("version", .text)]
  | .typeDecl => .tagged [("alias", .content "alias" .alias), ("enum", .content "enum" .enum),
      ("object", .content "object" .object), ("union", .content "union" .union)]
  | .alias => .record [("typeName", .name), ("alias", .type), ("docs", .text)]
  | .enum => .record [("typeName", .name), ("values", .list .enumValue), ("docs", .text)]
  | .enumValue => .record [("value", .text), ("docs", .text)]
  | .object => .record [("typeName", .name), ("fields", .list .field), ("docs", .text)]
  | .union => .record [("typeName", .name), ("union", .list .field), ("docs", .text)]
  | .field => .record [("fieldName", .text), ("type", .type), ("docs", .text), ("safety", .text)]
  | .error => .record [("errorName", .name), ("namespace", .text), ("code", .text),
      ("safeArgs", .list .field), ("unsafeArgs", .list .field), ("docs", .text)]
  | .name => .record [("name", .text), ("package", .text)]
  | .type => .tagged [("primitive", .content "primitive" .text),
      ("optional", .content "optional" .item), ("list", .content "list" .item),
      ("set", .content "set" .item), ("map", .content "map" .map),
      ("reference", .content "reference" .name), ("external", .content "external" .external)]
  | .item => .record [("itemType", .type)]
  | .map => .record [("keyType", .type), ("valueType", .type)]
  | .external => .record [("externalReference", .name), ("fallback", .type)]

/-- The keys of an object that are declared, with their places. -/
def Layout.keys : Layout → List (String × Place)
  | .record fields => fields
  | _ => []

/-- The place of an item of an array. -/
def Layout.item? : Layout → ℕ → Option Place
  | .list inside, _ => some inside
  | .record fields, i => fields[i]?.map Prod.snd
  | _, _ => none

/-- Whether values at the place are tagged alternatives. -/
def Layout.isTagged : Layout → Bool
  | .tagged _ => true
  | _ => false

/-- The alternative that a tag names; in content set aside, a number names one by its index. -/
def variant? {α : Type} (s : Source) (variants : List (String × α)) : Json → Option α
  | .str tag => variants.lookup tag
  | .num (.int n) =>
    if s = .setAside ∧ 0 ≤ n then variants[n.toNat]?.map Prod.snd else none
  | _ => none

lemma mem_of_variant? {α : Type} {s : Source} {variants : List (String × α)} {tag : Json} {a : α}
    (h : variant? s variants tag = some a) : ∃ name, (name, a) ∈ variants := by
  cases tag with
  | str tag =>
    obtain ⟨before, after, rfl, -⟩ := List.lookup_eq_some_iff.1 h
    exact ⟨tag, by simp⟩
  | num k =>
    cases k with
    | int k =>
      simp only [variant?] at h
      split_ifs at h
      obtain ⟨⟨name, b⟩, hb, rfl⟩ := Option.map_eq_some_iff.1 h
      exact ⟨name, List.mem_of_getElem? hb⟩
    | double x => cases h
  | _ => cases h

/-- An alternative is a record with its content under one key. -/
lemma exists_content_of_variant? {s : Source} {p q : Place} {variants : List (String × Place)}
    {tag : Json} (hp : p.layout = .tagged variants) (hq : variant? s variants tag = some q) :
    ∃ key inside, q = .content key inside := by
  obtain ⟨name, hmem⟩ := mem_of_variant? hq
  have hcontent : ∀ field ∈ variants, ∃ key inside, field.2 = Place.content key inside := by
    cases p <;> simp only [Place.layout, reduceCtorEq, Layout.tagged.injEq] at hp <;> subst hp <;>
      simp
  exact hcontent (name, q) hmem

/-- Whether the value is neither an array nor an object. -/
def isScalar : Json → Bool
  | .arr _ | .obj _ => false
  | _ => true

/-- Two values at a place differ in nothing that is read there: only in the order of keys, in keys
that are not declared, and in places where anything may stand. -/
inductive Alike : Source → Place → Json → Json → Prop where
  | anything {s : Source} {p : Place} {v w : Json} (hp : p.layout = .anything) : Alike s p v w
  | scalar {s : Source} {p : Place} {v : Json} (hv : isScalar v = true) : Alike s p v v
  | arr {s : Source} {p : Place} {xs ys : List Json} (hp : p.layout.isTagged = false)
      (hlength : xs.length = ys.length)
      (hitems : ∀ i q x y, p.layout.item? i = some q → xs[i]? = some x → ys[i]? = some y →
        Alike s q x y) :
      Alike s p (.arr xs) (.arr ys)
  | obj {s : Source} {p : Place} {f g : List (String × Json)} (hp : p.layout.isTagged = false)
      (hkeys : ∀ key q, (key, q) ∈ p.layout.keys →
        (f.lookup key).isSome = (g.lookup key).isSome)
      (hvalues : ∀ key q x y, (key, q) ∈ p.layout.keys → f.lookup key = some x →
        g.lookup key = some y → Alike s q x y) :
      Alike s p (.obj f) (.obj g)
  | emptyAlternative {s : Source} {p : Place} (hp : p.layout.isTagged = true) :
      Alike s p (.arr []) (.arr [])
  | arrAlternative {s : Source} {p : Place} {variants : List (String × Place)} {tag tag' : Json}
      {xs ys : List Json} (hp : p.layout = .tagged variants) (htag : Alike s .text tag tag')
      (hrest : ∀ q, variant? s variants tag = some q → Alike .setAside q (.arr xs) (.arr ys)) :
      Alike s p (.arr (tag :: xs)) (.arr (tag' :: ys))
  | objAlternative {s : Source} {p : Place} {variants : List (String × Place)}
      {f g : List (String × Json)} (hp : p.layout = .tagged variants)
      (hkey : (f.lookup "type").isSome = (g.lookup "type").isSome)
      (htag : ∀ tag tag', f.lookup "type" = some tag → g.lookup "type" = some tag' →
        Alike s .text tag tag')
      (hrest : ∀ tag q, f.lookup "type" = some tag → variant? s variants tag = some q →
        Alike .setAside q (.obj (erase f "type")) (.obj (erase g "type"))) :
      Alike s p (.obj f) (.obj g)

namespace Alike

variable {s : Source} {p : Place} {v w : Json}

/-- Every value is alike itself, also where it cannot be read.  At a place with alternatives the tag
is taken out first, so the parts are looked at for an array or object with some of them left out. -/
theorem refl (s : Source) (p : Place) (v : Json) : Alike s p v v := by
  induction v using Json.induct generalizing s p with
  | null | bool | num | str => exact .scalar rfl
  | arr items ih =>
    have hplain : ∀ (s : Source) (p : Place) {xs : List Json}, (∀ x ∈ xs, x ∈ items) →
        p.layout.isTagged = false → Alike s p (.arr xs) (.arr xs) := by
      intro s p xs hsub hp
      refine .arr hp rfl fun i q x y _ hx hy => ?_
      obtain rfl := Option.some.inj (hx.symm.trans hy)
      exact ih x (hsub x (List.mem_of_getElem? hx)) s q
    cases hp : p.layout with
    | tagged variants =>
      cases items with
      | nil => exact .emptyAlternative (by rw [hp]; rfl)
      | cons tag xs =>
        refine .arrAlternative hp (ih tag List.mem_cons_self s .text) fun q hq => ?_
        obtain ⟨key, inside, rfl⟩ := exists_content_of_variant? hp hq
        exact hplain _ _ (fun x hx => List.mem_cons_of_mem tag hx) rfl
    | _ => exact hplain s p (fun _ hx => hx) (by rw [hp]; rfl)
  | obj fields ih =>
    have hvalue : ∀ {f : List (String × Json)} {key : String} {x y : Json}, (∀ e ∈ f, e ∈ fields) →
        f.lookup key = some x → f.lookup key = some y → ∀ s q, Alike s q x y := by
      intro f key x y hsub hx hy s q
      obtain rfl := Option.some.inj (hx.symm.trans hy)
      obtain ⟨before, after, rfl, -⟩ := List.lookup_eq_some_iff.1 hx
      exact ih (key, x) (hsub _ (by simp)) s q
    have hplain : ∀ (s : Source) (p : Place) {f : List (String × Json)}, (∀ e ∈ f, e ∈ fields) →
        p.layout.isTagged = false → Alike s p (.obj f) (.obj f) :=
      fun s p f hsub hp => .obj hp (fun _ _ _ => rfl) fun key q x y _ hx hy =>
        hvalue hsub hx hy s q
    cases hp : p.layout with
    | tagged variants =>
      refine .objAlternative hp rfl
        (fun tag tag' ht ht' => hvalue (fun _ he => he) ht ht' s .text) fun tag q _ hq => ?_
      obtain ⟨key, inside, rfl⟩ := exists_content_of_variant? hp hq
      exact hplain _ _ (fun _ he => List.mem_of_mem_filter he) rfl
    | _ => exact hplain s p (fun _ he => he) (by rw [hp]; rfl)

/-- Records are alike if what they have under each declared key is. -/
lemma of_keys {fields : List (String × Place)} {f g : List (String × Json)}
    (hp : p.layout = .record fields) (h : fields.Forall fun field =>
      Option.Rel (Alike s field.2) (f.lookup field.1) (g.lookup field.1)) :
    Alike s p (.obj f) (.obj g) := by
  rw [List.forall_iff_forall_mem] at h
  refine .obj (by rw [hp]; rfl) (fun key q hq => ?_) (fun key q x y hq hf hg => ?_)
  · rw [hp] at hq
    have hrel := h (key, q) hq
    dsimp only at hrel
    generalize f.lookup key = a at hrel
    generalize g.lookup key = b at hrel
    cases hrel <;> rfl
  · rw [hp] at hq
    have hrel := h (key, q) hq
    rw [hf, hg] at hrel
    cases hrel
    assumption

/-- Lists are alike if their items are. -/
lemma of_items {q : Place} {xs ys : List Json} (hp : p.layout = .list q)
    (h : List.Forall₂ (Alike s q) xs ys) : Alike s p (.arr xs) (.arr ys) := by
  refine .arr (by simp [hp, Layout.isTagged]) h.length_eq fun i q' x y hq hx hy => ?_
  obtain rfl : q = q' := by simpa [hp, Layout.item?] using hq
  obtain ⟨hi, rfl⟩ := List.getElem?_eq_some_iff.1 hx
  obtain ⟨hi', rfl⟩ := List.getElem?_eq_some_iff.1 hy
  exact h.get hi hi'

/-- Alternatives are alike if they have the same tag and their contents are alike. -/
lemma of_tag {q : Place} {variants : List (String × Place)} {f g : List (String × Json)}
    {tag : String} (hp : p.layout = .tagged variants) (hf : f.lookup "type" = some (.str tag))
    (hg : g.lookup "type" = some (.str tag)) (hq : variants.lookup tag = some q)
    (h : Alike .setAside q (.obj (erase f "type")) (.obj (erase g "type"))) :
    Alike s p (.obj f) (.obj g) := by
  refine .objAlternative hp (by rw [hf, hg]) (fun t t' ht ht' => ?_) (fun t q' ht hq' => ?_)
  · rw [hf] at ht
    rw [hg] at ht'
    cases ht
    cases ht'
    exact .scalar rfl
  · rw [hf] at ht
    cases ht
    obtain rfl := Option.some.inj (hq.symm.trans hq')
    exact h

/-- At a place that is read and has no alternatives, alike values are the same scalar, or arrays or
objects whose parts are alike. -/
lemma cases_of_plain (h : Alike s p v w) (hp : p.layout ≠ .anything)
    (hplain : p.layout.isTagged = false) :
    (isScalar v = true ∧ w = v) ∨
      (∃ xs ys, v = .arr xs ∧ w = .arr ys ∧ xs.length = ys.length ∧
        ∀ i q x y, p.layout.item? i = some q → xs[i]? = some x → ys[i]? = some y →
          Alike s q x y) ∨
      ∃ f g, v = .obj f ∧ w = .obj g ∧
        ∀ key q, (key, q) ∈ p.layout.keys →
          (f.lookup key).isSome = (g.lookup key).isSome ∧
            ∀ x y, f.lookup key = some x → g.lookup key = some y → Alike s q x y := by
  cases h with
  | anything h => exact (hp h).elim
  | scalar hv => exact .inl ⟨hv, rfl⟩
  | arr _ hlength hitems => exact .inr (.inl ⟨_, _, rfl, rfl, hlength, hitems⟩)
  | obj _ hkeys hvalues =>
    exact .inr (.inr ⟨_, _, rfl, rfl, fun key q hq =>
      ⟨hkeys key q hq, fun x y => hvalues key q x y hq⟩⟩)
  | emptyAlternative h => rw [h] at hplain; cases hplain
  | arrAlternative h | objAlternative h => rw [h] at hplain; cases hplain

/-- At a place with alternatives, alike values that are no scalars have alike tags, and what remains
is alike where the tag says. -/
lemma cases_of_tagged (h : Alike s p v w) {variants : List (String × Place)}
    (hp : p.layout = .tagged variants) :
    (isScalar v = true ∧ w = v) ∨ (v = .arr [] ∧ w = .arr []) ∨
      (∃ tag tag' xs ys, v = .arr (tag :: xs) ∧ w = .arr (tag' :: ys) ∧ Alike s .text tag tag' ∧
        ∀ q, variant? s variants tag = some q → Alike .setAside q (.arr xs) (.arr ys)) ∨
      ∃ f g, v = .obj f ∧ w = .obj g ∧ (f.lookup "type").isSome = (g.lookup "type").isSome ∧
        ∀ tag tag', f.lookup "type" = some tag → g.lookup "type" = some tag' →
          Alike s .text tag tag' ∧ ∀ q, variant? s variants tag = some q →
            Alike .setAside q (.obj (erase f "type")) (.obj (erase g "type")) := by
  cases h with
  | anything h => rw [hp] at h; cases h
  | scalar hv => exact .inl ⟨hv, rfl⟩
  | arr h | obj h => rw [hp] at h; cases h
  | emptyAlternative => exact .inr (.inl ⟨rfl, rfl⟩)
  | arrAlternative h htag hrest =>
    obtain rfl := Layout.tagged.inj (h.symm.trans hp)
    exact .inr (.inr (.inl ⟨_, _, _, _, rfl, rfl, htag, hrest⟩))
  | objAlternative h hkey htag hrest =>
    obtain rfl := Layout.tagged.inj (h.symm.trans hp)
    exact .inr (.inr (.inr ⟨_, _, rfl, rfl, hkey, fun tag tag' hf hg =>
      ⟨htag tag tag' hf hg, fun q => hrest tag q hf⟩⟩))

end Alike

end WireContract.Schema.Outline
