import Mathlib.Data.Int.ConditionallyCompleteOrder
import Mathlib.Order.ConditionallyCompleteLattice.Basic
import Mathlib.Order.Fin.Basic
import WireContract.Proofs.DerivedTraits
import WireContract.Proofs.OrderLaws
import WireContract.Proofs.OrderedTypes
import WireContract.Sample.Canvas
import WireContract.Wire.Value

/-!
# The order of values

A type that derives an order is compared by what it is made of: records field by field in the order
of declaration, lists item by item, no value before a value, the declared values of an enumeration
in the order of declaration and before all others.  `Precedes` says so as a relation, and `IsOf`
says which values a reference has.

The values of one ordered type are totally ordered.  Trees contain trees, so the induction is over a
value and not over types: each value has its place among all values of its reference
(`IsOf.placedIn`).  From that, a collection has each value once, in the one order there is
(`collect_spec`, `Ascending.eq_of_mem_iff`).
-/

namespace WireContract.Schema

/-- What the declaration of an ordered type refers to is ordered. -/
lemma Registry.Indexed.references_ordered {reg : Registry} (hreg : reg.Indexed) {d : Declaration}
    (hd : d ∈ reg.declarations) (hq : d.name ∈ reg.orderable) :
    d.IsPlain ∧ ∀ member r, (member, r) ∈ d.references →
      r.OrderedOver {q | q ∈ reg.orderable} := by
  obtain ⟨d', hd', hname, hplain, hrefs⟩ := hreg.selfOrdered_orderable d.name hq
  obtain rfl := hreg.eq_of_name_eq hd' hd hname
  exact ⟨hplain, hrefs⟩

end WireContract.Schema

namespace WireContract.Wire

open Schema Emit

/-! ## Values and their order -/

namespace Value

/-- The first value comes before the second, both of one type. -/
inductive Precedes : Value → Value → Prop where
  | text {s t : String} (h : s < t) : Precedes (.text s) (.text t)
  | int {m n : Int} (h : m < n) : Precedes (.int m) (.int n)
  | bool : Precedes (.bool false) (.bool true)
  | instant {t u : Instant} (h : List.Lex (· < ·) t.parts u.parts) :
      Precedes (.instant t) (.instant u)
  | uuid {u w : Uuid} (h : List.Lex (· < ·) u.digits w.digits) : Precedes (.uuid u) (.uuid w)
  | bytes {bs cs : List UInt8} (h : List.Lex (· < ·) bs cs) : Precedes (.bytes bs) (.bytes cs)
  | absent (v : Value) : Precedes .absent (.present v)
  | present {v w : Value} (h : Precedes v w) : Precedes (.present v) (.present w)
  | list {vs ws : List Value} (h : List.Lex Precedes vs ws) : Precedes (.list vs) (.list ws)
  /-- Entries are compared by key and then by value. -/
  | map {es fs : List (Value × Value)} (h : List.Lex (Prod.Lex Precedes Precedes) es fs) :
      Precedes (.map es) (.map fs)
  | known {i j : ℕ} (h : i < j) (name name' : String) : Precedes (.known i name) (.known j name')
  | declared (i : ℕ) (name s : String) : Precedes (.known i name) (.unknown s)
  | unknown {s t : String} (h : s < t) : Precedes (.unknown s) (.unknown t)
  | record {vs ws : List Value} (h : List.Lex Precedes vs ws) : Precedes (.record vs) (.record ws)

/-- The values come in their order, each once. -/
def Ascending (vs : List Value) : Prop := vs.Pairwise fun v w => compare v w = .lt

/-- The values of a primitive type. -/
def scalars : Primitive → Set Value
  | .string | .rid | .bearertoken => Set.range text
  | .integer => int '' Set.Icc (-2147483648) 2147483647
  | .safelong => int '' Set.Icc (-9223372036854775808) 9223372036854775807
  | .double => Set.range double
  | .boolean => Set.range bool
  | .datetime => Set.range instant
  | .uuid => Set.range uuid
  | .any => Set.range any

/-- The declared values of an enumeration, with their places in the declaration. -/
def declaredValues (e : Enum) : Set Value :=
  (fun p : ℕ × String => known p.1 p.2) '' {p | (e.values.map (·.value))[p.1]? = some p.2}

/-- The values of an enumeration: besides those it declares, any text. -/
def enumValues (e : Enum) : Set Value := declaredValues e ∪ Set.range unknown

end Value

open Value

/-- The value is one of the reference, as the declarations have it. -/
inductive IsOf (reg : Registry) : TypeRef → Value → Prop where
  | scalar {p : Primitive} {v : Value} (h : v ∈ scalars p) : IsOf reg (.primitive p) v
  | bytes (bs : List UInt8) : IsOf reg .binary (.bytes bs)
  | absent (t : TypeRef) : IsOf reg (.optional t) .absent
  | present {t : TypeRef} {v : Value} (h : IsOf reg t v) : IsOf reg (.optional t) (.present v)
  | list {t : TypeRef} {items : List Value} (h : ∀ v ∈ items, IsOf reg t v) :
      IsOf reg (.list t) (.list items)
  | set {t : TypeRef} {items : List Value} (hsorted : Ascending items)
      (h : ∀ v ∈ items, IsOf reg t v) : IsOf reg (.set t) (.list items)
  | map {k t : TypeRef} {entries : List (Value × Value)} (hsorted : Ascending (entries.map (·.1)))
      (hkeys : ∀ e ∈ entries, IsOf reg k e.1) (hvalues : ∀ e ∈ entries, IsOf reg t e.2) :
      IsOf reg (.map k t) (.map entries)
  | external (q : QualifiedName) {t : TypeRef} {v : Value} (h : IsOf reg t v) :
      IsOf reg (.external q t) v
  | alias {a : Alias} {v : Value} (ha : .alias a ∈ reg.declarations) (h : IsOf reg a.target v) :
      IsOf reg (.declared a.name) v
  | enum {e : Enum} {v : Value} (he : .enum e ∈ reg.declarations) (h : v ∈ enumValues e) :
      IsOf reg (.declared e.name) v
  | record {o : Object} {values : List Value} (ho : .object o ∈ reg.declarations)
      (hlength : values.length = o.fields.length)
      (h : ∀ (i : ℕ) (v : Value), values[i]? = some v →
        ∀ f : Field, o.fields[i]? = some f → IsOf reg f.type v) :
      IsOf reg (.declared o.name) (.record values)
  | member {u : Union} {m : Member} {v : Value} (hu : .union u ∈ reg.declarations)
      (hm : m ∈ u.members) (h : IsOf reg m.type v) : IsOf reg (.declared u.name) (.member m.tag v)
  | unknownMember {u : Union} (hu : .union u ∈ reg.declarations) (tag : String) (v : Json) :
      IsOf reg (.declared u.name) (.unknownMember tag v)

/-! ## The laws hold for values -/

namespace Value

lemma compareItems_eq (vs ws : List Value) :
    compareItems vs ws = List.compareLex compare vs ws := by
  induction vs generalizing ws with
  | nil => cases ws <;> rfl
  | cons v vs ih =>
    cases ws with
    | nil => rfl
    | cons w ws =>
      rw [compareItems, List.compareLex_cons_cons, ← ih]
      cases compare v w <;> rfl

/-- The comparison of entries by key and then by value. -/
def comparePair (e f : Value × Value) : Ordering := (compare e.1 f.1).then (compare e.2 f.2)

lemma compareEntries_eq (es fs : List (Value × Value)) :
    compareEntries es fs = List.compareLex comparePair es fs := by
  induction es generalizing fs with
  | nil => cases fs <;> rfl
  | cons e es ih =>
    cases fs with
    | nil => rfl
    | cons f fs =>
      rw [compareEntries, List.compareLex_cons_cons, ← ih, comparePair]
      cases compare e.1 f.1 <;> cases compare e.2 f.2 <;> rfl

lemma parts_injective : Function.Injective Instant.parts := by
  rintro ⟨⟨⟩, _⟩ ⟨⟨⟩, _⟩ h
  simp only [Instant.parts, List.cons.injEq, Int.natCast_inj, and_true] at h
  obtain ⟨rfl, rfl, rfl, rfl, rfl, rfl, rfl⟩ := h
  rfl

lemma digits_injective : Function.Injective Uuid.digits := by
  intro u w h
  cases u
  cases w
  cases h
  rfl

lemma placedIn_text (s : Set String) (t : String) :
    PlacedIn compare Precedes (text '' s) (text t) := by
  refine (placedIn_linear s t).map text (fun _ _ => rfl) fun _ _ => ⟨fun h => ?_, .text⟩
  cases h with
  | text h => exact h

lemma placedIn_int (s : Set Int) (n : Int) : PlacedIn compare Precedes (int '' s) (int n) := by
  refine (placedIn_linear s n).map int (fun _ _ => rfl) fun _ _ => ⟨fun h => ?_, .int⟩
  cases h with
  | int h => exact h

lemma placedIn_bool (s : Set Bool) (b : Bool) : PlacedIn compare Precedes (bool '' s) (bool b) := by
  refine (placedIn_linear s b).map bool (fun _ _ => rfl) fun _ _ => ⟨fun h => ?_, fun h => ?_⟩
  · cases h
    exact Bool.false_lt_true
  · obtain ⟨rfl, rfl⟩ := Bool.lt_iff.1 h
    exact .bool

lemma placedIn_instant (s : Set Instant) (t : Instant) :
    PlacedIn compare Precedes (instant '' s) (instant t) := by
  refine (placedIn_numbers Function.injective_id (fun _ _ => Iff.rfl) t.parts).image instant
    Instant.parts parts_injective (fun _ _ => trivial) (fun _ _ => ?_)
    fun _ _ => ⟨fun h => ?_, .instant⟩
  · rw [compare, List.compare_eq_compareLex]
    rfl
  · cases h with
    | instant h => exact h

lemma placedIn_uuid (s : Set Uuid) (u : Uuid) :
    PlacedIn compare Precedes (uuid '' s) (uuid u) := by
  refine (placedIn_numbers Fin.val_injective (fun _ _ => Iff.rfl) u.digits).image uuid
    Uuid.digits digits_injective (fun _ _ => trivial) (fun _ _ => ?_)
    fun _ _ => ⟨fun h => ?_, .uuid⟩
  · rw [compare, List.compare_eq_compareLex, compareLex_map]
  · cases h with
    | uuid h => exact h

lemma placedIn_bytes (bs : List UInt8) :
    PlacedIn compare Precedes (Set.range bytes) (bytes bs) := by
  rw [← Set.image_univ]
  refine (placedIn_numbers (fun _ _ => UInt8.toNat_inj.1) (fun _ _ => UInt8.lt_iff_toNat_lt) bs).map
    bytes (fun _ _ => ?_) fun _ _ => ⟨fun h => ?_, .bytes⟩
  · rw [compare, List.compare_eq_compareLex, compareLex_map]
  · cases h with
    | bytes h => exact h

lemma placedIn_scalars {p : Primitive} (hp : p ≠ .double ∧ p ≠ .any) {v : Value}
    (hv : v ∈ scalars p) : PlacedIn compare Precedes (scalars p) v := by
  cases p with
  | double => exact (hp.1 rfl).elim
  | any => exact (hp.2 rfl).elim
  | string | rid | bearertoken =>
    obtain ⟨s, rfl⟩ := hv
    exact (placedIn_text Set.univ s).mono Set.image_univ.superset
  | integer | safelong =>
    obtain ⟨n, -, rfl⟩ := hv
    exact placedIn_int _ n
  | boolean =>
    obtain ⟨b, rfl⟩ := hv
    exact (placedIn_bool Set.univ b).mono Set.image_univ.superset
  | datetime =>
    obtain ⟨t, rfl⟩ := hv
    exact (placedIn_instant Set.univ t).mono Set.image_univ.superset
  | uuid =>
    obtain ⟨u, rfl⟩ := hv
    exact (placedIn_uuid Set.univ u).mono Set.image_univ.superset

lemma placedIn_list {s : Set Value} {vs : List Value}
    (h : ∀ v ∈ vs, v ∈ s ∧ PlacedIn compare Precedes s v) :
    PlacedIn compare Precedes (list '' {ws | ∀ w ∈ ws, w ∈ s}) (list vs) := by
  have hlex := (placedIn_lex (mem_items_const.2 h)).mono fun ws hws => mem_items_const.2 hws
  refine hlex.map list (fun vs ws => compareItems_eq vs ws) fun vs ws => ⟨fun h => ?_, .list⟩
  cases h with
  | list h => exact h

lemma placedIn_record {s : ℕ → Set Value} {vs : List Value}
    (h : vs ∈ Items fun i => {v | v ∈ s i ∧ PlacedIn compare Precedes (s i) v}) :
    PlacedIn compare Precedes (record '' Items s) (record vs) := by
  refine (placedIn_lex h).map record (fun vs ws => compareItems_eq vs ws)
    fun vs ws => ⟨fun h => ?_, .record⟩
  cases h with
  | record h => exact h

lemma placedIn_map {s t : Set Value} {es : List (Value × Value)}
    (hkeys : ∀ e ∈ es, e.1 ∈ s ∧ PlacedIn compare Precedes s e.1)
    (hvalues : ∀ e ∈ es, e.2 ∈ t ∧ PlacedIn compare Precedes t e.2) :
    PlacedIn compare Precedes (map '' {fs | ∀ f ∈ fs, f ∈ s ×ˢ t}) (map es) := by
  have hpair : ∀ e ∈ es, e ∈ s ×ˢ t ∧
      PlacedIn comparePair (Prod.Lex Precedes Precedes) (s ×ˢ t) e := fun e he =>
    ⟨⟨(hkeys e he).1, (hvalues e he).1⟩, (hkeys e he).2.prod (hvalues e he).2⟩
  have hlex := (placedIn_lex (mem_items_const.2 hpair)).mono fun fs hfs => mem_items_const.2 hfs
  refine hlex.map map (fun es fs => compareEntries_eq es fs) fun es fs => ⟨fun h => ?_, .map⟩
  cases h with
  | map h => exact h

/-! ### Optional values -/

lemma apart_absent (s : Set Value) : Apart compare Precedes {absent} (present '' s) := by
  rintro _ rfl _ ⟨v, -, rfl⟩
  refine ⟨rfl, rfl, .absent v, fun h => ?_⟩
  cases h

lemma placedIn_absent (s : Set Value) :
    PlacedIn compare Precedes ({absent} ∪ present '' s) absent := by
  refine (PlacedIn.singleton rfl fun h => ?_).before rfl (apart_absent s)
  cases h

lemma placedIn_present {s : Set Value} {v : Value} (hv : v ∈ s)
    (h : PlacedIn compare Precedes s v) :
    PlacedIn compare Precedes ({absent} ∪ present '' s) (present v) := by
  refine PlacedIn.after ?_ ⟨v, hv, rfl⟩ (apart_absent s)
  refine h.map present (fun _ _ => rfl) fun _ _ => ⟨fun h => ?_, .present⟩
  cases h with
  | present h => exact h

/-! ### Enumerations -/

lemma apart_declared (e : Enum) :
    Apart compare Precedes (declaredValues e) (Set.range unknown) := by
  rintro _ ⟨⟨i, name⟩, -, rfl⟩ _ ⟨s, rfl⟩
  refine ⟨rfl, rfl, .declared i name s, fun h => ?_⟩
  cases h

/-- Declared values are compared by their places, where names count no more. -/
lemma placedIn_declared {e : Enum} {v : Value} (hv : v ∈ declaredValues e) :
    PlacedIn compare Precedes (declaredValues e) v := by
  obtain ⟨⟨i, name⟩, hname, rfl⟩ := hv
  have hplace := placedIn_linear Set.univ i
  refine ⟨?_, ?_, ?_, ?_⟩
  · rintro _ ⟨⟨j, name'⟩, -, rfl⟩
    exact hplace.swap j trivial
  · rintro _ ⟨⟨j, name'⟩, hname', rfl⟩ heq
    obtain rfl : i = j := hplace.eq_of_compare j trivial heq
    obtain rfl : name = name' := Option.some.inj (hname.symm.trans hname')
    rfl
  · rintro _ ⟨⟨j, _⟩, -, rfl⟩ _ ⟨⟨k, _⟩, -, rfl⟩ hij hjk
    exact hplace.lt_of_lt_of_le j trivial k trivial hij hjk
  · rintro _ ⟨⟨j, name'⟩, -, rfl⟩
    refine (hplace.lt_iff j trivial).trans ⟨fun h => .known h name name', fun h => ?_⟩
    cases h with
    | known h => exact h

lemma placedIn_unknown (s : String) :
    PlacedIn compare Precedes (Set.range unknown) (unknown s) := by
  rw [← Set.image_univ]
  refine (placedIn_linear Set.univ s).map unknown (fun _ _ => rfl)
    fun _ _ => ⟨fun h => ?_, .unknown⟩
  cases h with
  | unknown h => exact h

lemma placedIn_enumValues {e : Enum} {v : Value} (hv : v ∈ enumValues e) :
    PlacedIn compare Precedes (enumValues e) v := by
  rcases hv with hv | ⟨s, rfl⟩
  · exact (placedIn_declared hv).before hv (apart_declared e)
  · exact (placedIn_unknown s).after ⟨s, rfl⟩ (apart_declared e)

end Value

/-! ## Values of a reference -/

/-- The values of a reference. -/
def valuesOf (reg : Registry) (t : TypeRef) : Set Value := {v | IsOf reg t v}

section ValuesOf

variable {reg : Registry}

lemma valuesOf_optional (t : TypeRef) :
    valuesOf reg (.optional t) = {absent} ∪ present '' valuesOf reg t := by
  ext v
  constructor
  · intro h
    cases h with
    | absent => exact .inl rfl
    | @present _ w h => exact .inr ⟨w, h, rfl⟩
  · rintro (rfl | ⟨w, h, rfl⟩)
    · exact .absent t
    · exact .present h

/-- What the values of a declaration are. -/
def IsOfDeclaration (reg : Registry) (v : Value) : Declaration → Prop
  | .alias a => IsOf reg a.target v
  | .enum e => v ∈ enumValues e
  | .object o => v ∈ record '' Items fun i => {w | ∀ f : Field, o.fields[i]? = some f →
      IsOf reg f.type w}
  | .union _ | .error _ => True

lemma isOfDeclaration_of_isOf (hreg : reg.Indexed) {d : Declaration} (hd : d ∈ reg.declarations)
    {v : Value} (h : IsOf reg (.declared d.name) v) : IsOfDeclaration reg v d := by
  generalize hr : TypeRef.declared d.name = r at h
  cases h with
  | «alias» ha h =>
    obtain rfl := hreg.eq_of_name_eq hd ha (TypeRef.declared.inj hr)
    exact h
  | enum he h =>
    obtain rfl := hreg.eq_of_name_eq hd he (TypeRef.declared.inj hr)
    exact h
  | @record o values ho hlength h =>
    obtain rfl := hreg.eq_of_name_eq hd ho (TypeRef.declared.inj hr)
    exact ⟨values, h, rfl⟩
  | member hu | unknownMember hu =>
    obtain rfl := hreg.eq_of_name_eq hd hu (TypeRef.declared.inj hr)
    trivial
  | _ => cases hr

/-- Each value of an ordered reference has its place among all values of the reference.  The
induction is over the derivation that it is one: what it is made of has references that are ordered
too. -/
theorem IsOf.placedIn (hreg : reg.Indexed) {t : TypeRef} {v : Value} (h : IsOf reg t v)
    (ht : t.OrderedOver {q | q ∈ reg.orderable}) :
    PlacedIn Value.compare Precedes (valuesOf reg t) v := by
  induction h with
  | scalar hv =>
    refine (placedIn_scalars ht hv).mono fun w hw => ?_
    cases hw with
    | scalar hw => exact hw
  | bytes bs =>
    refine (placedIn_bytes bs).mono fun w hw => ?_
    cases hw with
    | bytes cs => exact ⟨cs, rfl⟩
  | absent t =>
    rw [valuesOf_optional]
    exact placedIn_absent _
  | present h ih =>
    rw [valuesOf_optional]
    exact placedIn_present h (ih ht)
  | list h ih =>
    refine (placedIn_list fun v hv => ⟨h v hv, ih v hv ht⟩).mono fun w hw => ?_
    cases hw with
    | @list _ items h' => exact ⟨items, h', rfl⟩
  | set hsorted h ih =>
    refine (placedIn_list fun v hv => ⟨h v hv, ih v hv ht⟩).mono fun w hw => ?_
    cases hw with
    | @set _ items _ h' => exact ⟨items, h', rfl⟩
  | map hsorted hkeys hvalues ihkeys ihvalues =>
    refine (placedIn_map (fun e he => ⟨hkeys e he, ihkeys e he ht.1⟩)
      fun e he => ⟨hvalues e he, ihvalues e he ht.2⟩).mono fun w hw => ?_
    cases hw with
    | @map _ _ entries _ hk hv => exact ⟨entries, fun e he => ⟨hk e he, hv e he⟩, rfl⟩
  | external q h ih =>
    refine (ih ht).mono fun w hw => ?_
    cases hw with
    | external _ hw => exact hw
  | «alias» ha h ih =>
    obtain ⟨-, hrefs⟩ := hreg.references_ordered ha ht
    exact (ih (hrefs "" _ (List.mem_singleton_self _))).mono fun w hw =>
      isOfDeclaration_of_isOf hreg ha hw
  | enum he hv => exact (placedIn_enumValues hv).mono fun w hw =>
      isOfDeclaration_of_isOf hreg he hw
  | @record o values ho hlength h ih =>
    obtain ⟨-, hrefs⟩ := hreg.references_ordered ho ht
    refine (placedIn_record fun i v hv => ⟨h i v hv, ?_⟩).mono fun w hw =>
      isOfDeclaration_of_isOf hreg ho hw
    have hi : i < o.fields.length := by
      rw [← hlength]
      exact (List.getElem?_eq_some_iff.1 hv).1
    have hf : o.fields[i]? = some o.fields[i] := List.getElem?_eq_getElem hi
    have hmem : (o.fields[i].name, o.fields[i].type) ∈ (Declaration.object o).references :=
      List.mem_map_of_mem (f := fun f : Field => (f.name, f.type)) (List.getElem_mem hi)
    exact (ih i v hv _ hf (hrefs _ _ hmem)).mono fun w hw => hw _ hf
  | member hu | unknownMember hu =>
    obtain ⟨hplain, -⟩ := hreg.references_ordered hu ht
    rcases hplain with h | h | h <;> cases h

end ValuesOf

/-! ## Sorted collections -/

namespace Value

/-- Comparison is a total order of the values of a set, which is equal exactly on equal values and
has `Precedes` for its strict part. -/
structure OrdersTotally (s : Set Value) : Prop where
  eq_iff : ∀ a ∈ s, ∀ b ∈ s, compare a b = .eq ↔ a = b
  lt_iff : ∀ a ∈ s, ∀ b ∈ s, compare a b = .lt ↔ Precedes a b
  gt_iff : ∀ a ∈ s, ∀ b ∈ s, compare a b = .gt ↔ Precedes b a
  antisymm : ∀ a ∈ s, ∀ b ∈ s, compare a b ≠ .gt → compare b a ≠ .gt → a = b
  trans : ∀ a ∈ s, ∀ b ∈ s, ∀ c ∈ s,
    compare a b ≠ .gt → compare b c ≠ .gt → compare a c ≠ .gt
  total : ∀ a ∈ s, ∀ b ∈ s, compare a b ≠ .gt ∨ compare b a ≠ .gt

section Placed

variable {s : Set Value} (hs : ∀ a ∈ s, PlacedIn compare Precedes s a)

include hs

lemma compare_eq_gt_iff {a b : Value} (ha : a ∈ s) (hb : b ∈ s) :
    compare a b = .gt ↔ compare b a = .lt := by
  rw [(hs a ha).swap b hb, Ordering.swap_eq_lt]

lemma compare_lt_trans {a b c : Value} (ha : a ∈ s) (hb : b ∈ s) (hc : c ∈ s)
    (hab : compare a b = .lt) (hbc : compare b c = .lt) : compare a c = .lt := by
  refine (hs a ha).lt_of_lt_of_le b hb c hc hab ?_
  rw [hbc]
  exact Ordering.noConfusion

lemma ordersTotally_of_placedIn : OrdersTotally s where
  eq_iff a ha b hb := (hs a ha).compare_eq_iff ha hb
  lt_iff a ha b hb := (hs a ha).lt_iff b hb
  gt_iff a ha b hb := (compare_eq_gt_iff hs ha hb).trans ((hs b hb).lt_iff a ha)
  antisymm a ha b hb hab hba := by
    refine (hs a ha).eq_of_compare b hb ?_
    rw [(hs a ha).swap b hb] at hba
    cases hcmp : compare a b with
    | eq => rfl
    | lt =>
      rw [hcmp] at hba
      exact (hba rfl).elim
    | gt => exact (hab hcmp).elim
  trans a ha b hb c hc hab hbc := by
    cases hcmp : compare a b with
    | lt =>
      rw [(hs a ha).lt_of_lt_of_le b hb c hc hcmp hbc]
      exact Ordering.noConfusion
    | eq => rwa [(hs a ha).eq_of_compare b hb hcmp]
    | gt => exact (hab hcmp).elim
  total a ha b hb := by
    rw [(hs a ha).swap b hb]
    cases compare a b <;> simp

lemma mem_insertItem {x : Value} (hx : x ∈ s) {ys : List Value} (hys : ∀ y ∈ ys, y ∈ s)
    {z : Value} : z ∈ (insertItem x ys).1 ↔ z = x ∨ z ∈ ys := by
  induction ys with
  | nil => simp [insertItem]
  | cons y ys ih =>
    obtain ⟨hy, hys⟩ := List.forall_mem_cons.1 hys
    rw [insertItem]
    cases hcmp : compare x y with
    | lt => simp
    | eq =>
      rw [(hs x hx).eq_of_compare y hy hcmp]
      simp
    | gt =>
      simp only [List.mem_cons, ih hys]
      exact or_left_comm

lemma ascending_insertItem {x : Value} (hx : x ∈ s) {ys : List Value} (hys : ∀ y ∈ ys, y ∈ s)
    (hsorted : Ascending ys) : Ascending (insertItem x ys).1 := by
  induction ys with
  | nil => exact List.pairwise_singleton ..
  | cons y ys ih =>
    obtain ⟨hy, hys'⟩ := List.forall_mem_cons.1 hys
    obtain ⟨hbefore, hsorted'⟩ := List.pairwise_cons.1 hsorted
    rw [insertItem]
    cases hcmp : compare x y with
    | lt =>
      refine List.pairwise_cons.2 ⟨List.forall_mem_cons.2 ⟨hcmp, fun z hz => ?_⟩, hsorted⟩
      exact compare_lt_trans hs hx hy (hys' z hz) hcmp (hbefore z hz)
    | eq => exact hsorted
    | gt =>
      refine List.pairwise_cons.2 ⟨fun z hz => ?_, ih hys' hsorted'⟩
      rcases (mem_insertItem hs hx hys').1 hz with rfl | hz
      · exact (compare_eq_gt_iff hs hx hy).1 hcmp
      · exact hbefore z hz

/-- Values that are added one by one to sorted ones are all there in the end, in order. -/
lemma foldl_insertItem {xs : List Value} (hxs : ∀ x ∈ xs, x ∈ s) {ys : List Value}
    (hys : ∀ y ∈ ys, y ∈ s) (hsorted : Ascending ys) :
    Ascending (xs.foldl (fun sorted x => (insertItem x sorted).1) ys) ∧
      ∀ z, z ∈ xs.foldl (fun sorted x => (insertItem x sorted).1) ys ↔ z ∈ ys ∨ z ∈ xs := by
  induction xs generalizing ys with
  | nil => exact ⟨hsorted, by simp⟩
  | cons x xs ih =>
    obtain ⟨hx, hxs⟩ := List.forall_mem_cons.1 hxs
    have hmem {z : Value} : z ∈ (insertItem x ys).1 ↔ z = x ∨ z ∈ ys := mem_insertItem hs hx hys
    have hinsert : ∀ y ∈ (insertItem x ys).1, y ∈ s := fun y hy =>
      (hmem.1 hy).elim (fun heq => heq ▸ hx) (hys y)
    obtain ⟨hascending, hall⟩ := ih hxs hinsert (ascending_insertItem hs hx hys hsorted)
    refine ⟨hascending, fun z => ?_⟩
    rw [List.foldl_cons, hall, hmem, List.mem_cons]
    tauto

lemma collect_spec {xs : List Value} (hxs : ∀ x ∈ xs, x ∈ s) :
    Ascending (collect xs) ∧ ∀ x, x ∈ collect xs ↔ x ∈ xs := by
  have hnil : ∀ y ∈ ([] : List Value), y ∈ s := fun y hy => (List.not_mem_nil hy).elim
  simpa [collect] using foldl_insertItem hs hxs hnil .nil

lemma Ascending.nodup {xs : List Value} (h : Ascending xs) (hxs : ∀ x ∈ xs, x ∈ s) : xs.Nodup := by
  refine List.Pairwise.imp_of_mem (fun {a b} ha _ hab => ?_) h
  rintro rfl
  rw [(hs a (hxs a ha)).compare_self (hxs a ha)] at hab
  cases hab

/-- There is one way to put the members of a set in ascending order. -/
lemma Ascending.eq_of_mem_iff {xs ys : List Value} (hx : Ascending xs) (hy : Ascending ys)
    (hxs : ∀ x ∈ xs, x ∈ s) (hmem : ∀ z, z ∈ xs ↔ z ∈ ys) : xs = ys := by
  have hys : ∀ y ∈ ys, y ∈ s := fun y hy => hxs y ((hmem y).2 hy)
  have hperm : xs.Perm ys :=
    (List.perm_ext_iff_of_nodup (hx.nodup hs hxs) (hy.nodup hs hys)).2 hmem
  refine hperm.eq_of_pairwise (fun a b ha hb hab hba => ?_) hx hy
  rw [(compare_eq_gt_iff hs (hxs a ha) (hys b hb)).2 hba] at hab
  cases hab

end Placed

end Value

/-! ## Types that derive an order -/

/-- A declared type that derives a trait of an order is one of the ordered names. -/
lemma mem_orderable_of_derives {c : Contract} {q : QualifiedName} {traits : List Rust.Path}
    (h : Derives c (.declared q) traits) {p : Rust.Path} (hp : p ∈ orderTraits)
    (hmem : p ∈ traits) : c.isOrderable q = true := by
  obtain ⟨d, -, x, hx, hname, hsub⟩ := h
  have hderives := hsub hmem
  cases d with
  | «alias» | enum | object =>
    obtain rfl := List.mem_singleton.1 hx
    obtain rfl := EmittedType.declared.inj hname
    exact orderable_of_mem_derivedTraits hp hderives
  | union u =>
    obtain rfl := List.mem_singleton.1 hx
    cases orderable_of_mem_derivedTraits hp hderives
  | error e =>
    simp only [definitions, List.mem_cons, List.not_mem_nil, or_false] at hx
    rcases hx with rfl | rfl
    · cases hname
    · cases orderable_of_mem_derivedTraits hp hderives

/-- In a contract, comparison is a total order of the values of each type that derives an order: it
is equal exactly on equal values, and otherwise the first difference decides, by the order of
declaration.  So a collection of such values has each of them once, in an order that is theirs and
not that in which they came. -/
theorem derived_order_is_total (doc : Document) (c : Contract)
    (h : Contract.ofDocument doc = .ok c) (q : QualifiedName)
    (hq : Derives c (.declared q) [.ofWords ["PartialOrd"], .ofWords ["Ord"]]) :
    OrdersTotally (valuesOf c.registry (.declared q)) ∧
    ∀ xs : List Value, (∀ x ∈ xs, x ∈ valuesOf c.registry (.declared q)) →
      Ascending (collect xs) ∧ (collect xs).Nodup ∧ (∀ x, x ∈ collect xs ↔ x ∈ xs) ∧
      ∀ ys : List Value, (∀ y, y ∈ ys ↔ y ∈ xs) → collect ys = collect xs := by
  have hof := Contract.of_ofDocument h
  have hq' : q ∈ c.registry.orderable := by
    have horderable := mem_orderable_of_derives hq (p := .ofWords ["Ord"]) (by decide) (by decide)
    rwa [Contract.isOrderable, hof.orderable, List.contains_iff_mem] at horderable
  have hs : ∀ a ∈ valuesOf c.registry (.declared q),
      PlacedIn Value.compare Precedes (valuesOf c.registry (.declared q)) a :=
    fun a ha => IsOf.placedIn hof.indexed ha hq'
  refine ⟨ordersTotally_of_placedIn hs, fun xs hxs => ?_⟩
  obtain ⟨hsorted, hmem⟩ := collect_spec hs hxs
  have hcollect : ∀ x ∈ collect xs, x ∈ valuesOf c.registry (.declared q) :=
    fun x hx => hxs x ((hmem x).1 hx)
  refine ⟨hsorted, hsorted.nodup hs hcollect, hmem, fun ys hys => ?_⟩
  have hys' : ∀ y ∈ ys, y ∈ valuesOf c.registry (.declared q) := fun y hy => hxs y ((hys y).1 hy)
  obtain ⟨hsorted', hmem'⟩ := collect_spec hs hys'
  refine (hsorted.eq_of_mem_iff hs hsorted' hcollect fun z => ?_).symm
  rw [hmem, hmem', hys]

section Trees

open Sample.Canvas

/-- Trees with the types that they mention, colours and identifiers. -/
def forest : Document :=
  ⟨1, [.alias accountId, .enum color, .alias tags, .alias userId, .object treeNode]⟩

/-- The names of all its types, which are all ordered. -/
def forestNames : List QualifiedName :=
  [accountId.name, color.name, tags.name, userId.name, treeNode.name]

lemma forest_accepted :
    ∃ c, Contract.ofDocument forest = .ok c ∧ c.orderable = forestNames := by
  -- only trees mention another module
  have hok : (Contract.ofDocument forest).isOk = true :=
    Contract.isOk_of_ranked (fun m => if m = treeNode.name.module then 1 else 0) (by decide) rfl rfl
      (by decide)
  obtain ⟨c, hc⟩ := Outcome.exists_ok_of_isOk hok
  refine ⟨c, hc, ?_⟩
  rw [(Contract.of_ofDocument hc).orderable, Contract.registry_of_sorted hc (by decide)]
  decide

/-- A tree without parent and children. -/
def leaf : Value := .record [.int 2, .list [], .absent, .list [.text "leaf"]]

/-- The same number without children, but with a parent and without tags. -/
def twig : Value := .record [.int 2, .list [], .present leaf, .list []]

/-- A tree that has another one inside twice. -/
def root : Value := .record [.int 1, .list [leaf], .present leaf, .list []]

lemma isOf_tree {reg : Registry} (hnode : .object treeNode ∈ reg.declarations)
    (htags : .alias tags ∈ reg.declarations) {n : Int}
    (hn : n ∈ Set.Icc (-2147483648 : Int) 2147483647) {children : List Value}
    (hchildren : ∀ v ∈ children, IsOf reg (.declared treeNode.name) v) {parent : Value}
    (hparent : IsOf reg (.optional (.declared treeNode.name)) parent) (texts : List String) :
    IsOf reg (.declared treeNode.name)
      (.record [.int n, .list children, parent, .list (texts.map .text)]) := by
  refine .record hnode rfl fun i v hv f hf => ?_
  rcases i with _ | _ | _ | _ | i
  · obtain rfl := Option.some.inj hv
    obtain rfl := Option.some.inj hf
    exact .scalar ⟨n, hn, rfl⟩
  · obtain rfl := Option.some.inj hv
    obtain rfl := Option.some.inj hf
    exact .list hchildren
  · obtain rfl := Option.some.inj hv
    obtain rfl := Option.some.inj hf
    exact hparent
  · obtain rfl := Option.some.inj hv
    obtain rfl := Option.some.inj hf
    refine .alias htags (.list fun v hv => ?_)
    obtain ⟨s, -, rfl⟩ := List.mem_map.1 hv
    exact .scalar ⟨s, rfl⟩
  · cases hf

/-- All five types derive an order.  Trees of one number are told apart by their parents, before
their tags. -/
theorem derived_order_is_total_forest :
    ∃ c, Contract.ofDocument forest = .ok c ∧
      (∀ q ∈ forestNames, OrdersTotally (valuesOf c.registry (.declared q))) ∧
      (∀ v ∈ [leaf, root, twig], v ∈ valuesOf c.registry (.declared treeNode.name)) ∧
      Precedes leaf twig ∧ collect [twig, root, leaf, twig] = [root, leaf, twig] ∧
      collect [leaf, root, twig] = collect [twig, root, leaf, twig] := by
  have hmem (v : Value) : v ∈ [leaf, root, twig] ↔ v ∈ [twig, root, leaf, twig] := by
    simp only [List.mem_cons]
    tauto
  obtain ⟨c, hc, horderable⟩ := forest_accepted
  have hof := Contract.of_ofDocument hc
  have hderives : ∀ q ∈ forestNames,
      Derives c (.declared q) [.ofWords ["PartialOrd"], .ofWords ["Ord"]] := by
    intro q hq
    obtain ⟨d, hd, x, hx, hname, hsub⟩ :=
      derives_of_isOrderable hof (List.contains_iff_mem.2 (horderable ▸ hq))
    exact ⟨d, hd, x, hx, hname, List.Subset.trans (by decide) hsub⟩
  have hnode : .object treeNode ∈ c.registry.declarations := hof.perm.mem_iff.2 (by simp [forest])
  have htags : .alias tags ∈ c.registry.declarations := hof.perm.mem_iff.2 (by simp [forest])
  have hleaf : IsOf c.registry (.declared treeNode.name) leaf :=
    isOf_tree hnode htags (by simp) (by simp) (.absent _) ["leaf"]
  have htwig : IsOf c.registry (.declared treeNode.name) twig :=
    isOf_tree hnode htags (by simp) (by simp) (.present hleaf) []
  have hroot : IsOf c.registry (.declared treeNode.name) root :=
    isOf_tree hnode htags (by simp) (by simpa using hleaf) (.present hleaf) []
  have hvalues : ∀ v ∈ [leaf, root, twig],
      v ∈ valuesOf c.registry (.declared treeNode.name) := by
    simp only [List.forall_mem_cons]
    exact ⟨hleaf, hroot, htwig, by simp⟩
  obtain ⟨htotal, hcollect⟩ :=
    derived_order_is_total forest c hc treeNode.name (hderives _ (by decide))
  have hlt : Value.compare leaf twig = .lt := by cbv
  refine ⟨c, hc, fun q hq => ?_, hvalues, ?_, by cbv, ?_⟩
  · exact (derived_order_is_total forest c hc q (hderives q hq)).1
  · exact (htotal.lt_iff leaf hleaf twig htwig).1 hlt
  · obtain ⟨-, -, -, hsame⟩ :=
      hcollect [twig, root, leaf, twig] fun v hv => hvalues v ((hmem v).2 hv)
    exact hsame _ hmem

end Trees

end WireContract.Wire
