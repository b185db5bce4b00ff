import Mathlib.Data.Set.Image
import Mathlib.Order.Compare

/-!
# Laws of order for one element

`PlacedIn cmp lt s a` has the laws of a total order for one element `a` against all members of a set
`s`.  Where a type contains itself, there is no induction over types that could give the laws for
all members at once, but there is one over an element.  The lemmas hand the laws on from parts to
the whole: to elements with a key (`PlacedIn.image`), to a union of sets that are apart
(`PlacedIn.before`, `PlacedIn.after`), to pairs (`PlacedIn.prod`) and to lists (`placedIn_lex`).
-/

namespace WireContract.Wire

/-- Against the members of a set, the element `a` is compared as in a total order, the strict part
of which is `lt`. -/
structure PlacedIn {α : Type} (cmp : α → α → Ordering) (lt : α → α → Prop) (s : Set α) (a : α) :
    Prop where
  swap : ∀ b ∈ s, cmp b a = (cmp a b).swap
  eq_of_compare : ∀ b ∈ s, cmp a b = .eq → a = b
  lt_of_lt_of_le : ∀ b ∈ s, ∀ c ∈ s, cmp a b = .lt → cmp b c ≠ .gt → cmp a c = .lt
  lt_iff : ∀ b ∈ s, cmp a b = .lt ↔ lt a b

/-- All of one set comes before all of the other. -/
def Apart {α : Type} (cmp : α → α → Ordering) (lt : α → α → Prop) (s t : Set α) : Prop :=
  ∀ a ∈ s, ∀ b ∈ t, cmp a b = .lt ∧ cmp b a = .gt ∧ lt a b ∧ ¬ lt b a

namespace PlacedIn

variable {α β γ : Type} {cmp : α → α → Ordering} {lt : α → α → Prop} {s t : Set α} {a : α}

lemma mono (h : PlacedIn cmp lt t a) (hsub : s ⊆ t) : PlacedIn cmp lt s a :=
  ⟨fun b hb => h.swap b (hsub hb), fun b hb => h.eq_of_compare b (hsub hb),
    fun b hb c hc => h.lt_of_lt_of_le b (hsub hb) c (hsub hc), fun b hb => h.lt_iff b (hsub hb)⟩

lemma compare_self (h : PlacedIn cmp lt s a) (ha : a ∈ s) : cmp a a = .eq := by
  have hswap := h.swap a ha
  cases hcmp : cmp a a with
  | eq => rfl
  | lt | gt =>
    rw [hcmp] at hswap
    cases hswap

lemma compare_eq_iff (h : PlacedIn cmp lt s a) (ha : a ∈ s) {b : α} (hb : b ∈ s) :
    cmp a b = .eq ↔ a = b := by
  refine ⟨h.eq_of_compare b hb, ?_⟩
  rintro rfl
  exact h.compare_self ha

/-- Elements that are compared by a key. -/
lemma image (f : β → γ) (key : β → α) {x : β} (h : PlacedIn cmp lt s (key x))
    (hkey : key.Injective) {u : Set β} (hmaps : ∀ y ∈ u, key y ∈ s)
    {cmp' : γ → γ → Ordering} {lt' : γ → γ → Prop}
    (hcmp : ∀ x y, cmp' (f x) (f y) = cmp (key x) (key y))
    (hlt : ∀ x y, lt' (f x) (f y) ↔ lt (key x) (key y)) : PlacedIn cmp' lt' (f '' u) (f x) := by
  refine ⟨?_, ?_, ?_, ?_⟩
  · rintro _ ⟨y, hy, rfl⟩
    rw [hcmp, hcmp]
    exact h.swap _ (hmaps y hy)
  · rintro _ ⟨y, hy, rfl⟩ heq
    rw [hcmp] at heq
    rw [hkey (h.eq_of_compare _ (hmaps y hy) heq)]
  · rintro _ ⟨y, hy, rfl⟩ _ ⟨z, hz, rfl⟩ hxy hyz
    rw [hcmp] at hxy hyz ⊢
    exact h.lt_of_lt_of_le _ (hmaps y hy) _ (hmaps z hz) hxy hyz
  · rintro _ ⟨y, hy, rfl⟩
    rw [hcmp, hlt]
    exact h.lt_iff _ (hmaps y hy)

/-- Elements that are compared by what they hold. -/
lemma map (f : α → γ) (h : PlacedIn cmp lt s a) {cmp' : γ → γ → Ordering} {lt' : γ → γ → Prop}
    (hcmp : ∀ x y, cmp' (f x) (f y) = cmp x y) (hlt : ∀ x y, lt' (f x) (f y) ↔ lt x y) :
    PlacedIn cmp' lt' (f '' s) (f a) :=
  h.image f id Function.injective_id (fun _ hy => hy) hcmp hlt

/-- An element alone. -/
lemma singleton (hself : cmp a a = .eq) (hlt : ¬ lt a a) : PlacedIn cmp lt {a} a := by
  refine ⟨?_, ?_, ?_, ?_⟩
  · rintro _ rfl
    rw [hself]
    rfl
  · rintro _ rfl -
    rfl
  · rintro _ rfl _ rfl hab
    rw [hself] at hab
    cases hab
  · rintro _ rfl
    rw [hself]
    exact iff_of_false Ordering.noConfusion hlt

/-- A member of the first of two sets that are apart. -/
lemma before (h : PlacedIn cmp lt s a) (ha : a ∈ s) (hapart : Apart cmp lt s t) :
    PlacedIn cmp lt (s ∪ t) a := by
  refine ⟨?_, ?_, ?_, ?_⟩
  · rintro b (hb | hb)
    · exact h.swap b hb
    · obtain ⟨hab, hba, -, -⟩ := hapart a ha b hb
      rw [hab, hba]
      rfl
  · rintro b (hb | hb) heq
    · exact h.eq_of_compare b hb heq
    · rw [(hapart a ha b hb).1] at heq
      cases heq
  · rintro b hb c (hc | hc) hab hbc
    · rcases hb with hb | hb
      · exact h.lt_of_lt_of_le b hb c hc hab hbc
      · exact (hbc (hapart c hc b hb).2.1).elim
    · exact (hapart a ha c hc).1
  · rintro b (hb | hb)
    · exact h.lt_iff b hb
    · obtain ⟨hab, -, hlt, -⟩ := hapart a ha b hb
      exact iff_of_true hab hlt

/-- A member of the second of two sets that are apart. -/
lemma after (h : PlacedIn cmp lt t a) (ha : a ∈ t) (hapart : Apart cmp lt s t) :
    PlacedIn cmp lt (s ∪ t) a := by
  refine ⟨?_, ?_, ?_, ?_⟩
  · rintro b (hb | hb)
    · obtain ⟨hba, hab, -, -⟩ := hapart b hb a ha
      rw [hab, hba]
      rfl
    · exact h.swap b hb
  · rintro b (hb | hb) heq
    · rw [(hapart b hb a ha).2.1] at heq
      cases heq
    · exact h.eq_of_compare b hb heq
  · rintro b (hb | hb) c hc hab hbc
    · rw [(hapart b hb a ha).2.1] at hab
      cases hab
    · rcases hc with hc | hc
      · exact (hbc (hapart c hc b hb).2.1).elim
      · exact h.lt_of_lt_of_le b hb c hc hab hbc
  · rintro b (hb | hb)
    · obtain ⟨-, hab, -, hlt⟩ := hapart b hb a ha
      rw [hab]
      exact iff_of_false Ordering.noConfusion hlt
    · exact h.lt_iff b hb

/-- Pairs are compared by their first parts and then by their second. -/
lemma prod {cmp' : β → β → Ordering} {lt' : β → β → Prop} {t : Set β} {b : β}
    (ha : PlacedIn cmp lt s a) (hb : PlacedIn cmp' lt' t b) :
    PlacedIn (fun p q => (cmp p.1 q.1).then (cmp' p.2 q.2)) (Prod.Lex lt lt') (s ×ˢ t) (a, b) := by
  refine ⟨?_, ?_, ?_, ?_⟩
  · rintro ⟨c, d⟩ ⟨hc, hd⟩
    rw [ha.swap c hc, hb.swap d hd, Ordering.swap_then]
  · rintro ⟨c, d⟩ ⟨hc, hd⟩ heq
    obtain ⟨hac, hbd⟩ := Ordering.then_eq_eq.1 heq
    rw [ha.eq_of_compare c hc hac, hb.eq_of_compare d hd hbd]
  · rintro ⟨c, d⟩ ⟨hc, hd⟩ ⟨e, f⟩ ⟨he, hf⟩ hlt hle
    -- the second parts count only where the first parts of all three are equal
    rcases Ordering.then_eq_lt.1 hlt with hac | ⟨hac, hbd⟩
    · have hce : cmp c e ≠ .gt := fun hgt => hle (Ordering.then_eq_gt.2 (.inl hgt))
      exact Ordering.then_eq_lt.2 (.inl (ha.lt_of_lt_of_le c hc e he hac hce))
    · obtain rfl := ha.eq_of_compare c hc hac
      cases hae : cmp a e with
      | lt => rfl
      | eq =>
        have hdf : cmp' d f ≠ .gt := fun hgt => hle (Ordering.then_eq_gt.2 (.inr ⟨hae, hgt⟩))
        exact hb.lt_of_lt_of_le d hd f hf hbd hdf
      | gt => exact (hle (Ordering.then_eq_gt.2 (.inl hae))).elim
  · rintro ⟨c, d⟩ ⟨hc, hd⟩
    rw [Ordering.then_eq_lt, Prod.lex_def, ha.lt_iff c hc, hb.lt_iff d hd]
    refine or_congr_right (and_congr_left fun _ => ⟨ha.eq_of_compare c hc, ?_⟩)
    rintro rfl
    exact ha.compare_self hc

end PlacedIn

lemma placedIn_linear {α : Type} [LinearOrder α] (s : Set α) (a : α) :
    PlacedIn compare (· < ·) s a := by
  refine ⟨fun b _ => ?_, fun b _ heq => ?_, fun b _ c _ hab hbc => ?_, fun b _ => ?_⟩
  · exact Std.OrientedCmp.eq_swap
  · exact compare_eq_iff_eq.1 heq
  · exact Std.TransCmp.lt_of_lt_of_isLE hab (Ordering.isLE_iff_ne_gt.2 hbc)
  · exact compare_lt_iff_lt

/-! ## Lists -/

section Lists

variable {α : Type} {cmp : α → α → Ordering} {lt : α → α → Prop}

/-- Lists that have at each place a member of the set for that place. -/
def Items (s : ℕ → Set α) : Set (List α) := {xs | ∀ i x, xs[i]? = some x → x ∈ s i}

lemma cons_mem_items {s : ℕ → Set α} {x : α} {xs : List α} :
    x :: xs ∈ Items s ↔ x ∈ s 0 ∧ xs ∈ Items fun i => s (i + 1) := by
  constructor
  · intro h
    exact ⟨h 0 x rfl, fun i y hy => h (i + 1) y hy⟩
  · rintro ⟨hx, hxs⟩ i y hy
    cases i with
    | zero => exact Option.some.inj hy ▸ hx
    | succ i => exact hxs i y hy

lemma mem_items_const {s : Set α} {xs : List α} : xs ∈ Items (fun _ => s) ↔ ∀ x ∈ xs, x ∈ s := by
  constructor
  · intro h x hx
    obtain ⟨i, hi⟩ := List.mem_iff_getElem?.1 hx
    exact h i x hi
  · exact fun h i x hi => h x (List.mem_of_getElem? hi)

lemma items_eq (s : ℕ → Set α) :
    Items s = {[]} ∪ (fun p : α × List α => p.1 :: p.2) '' (s 0 ×ˢ Items fun i => s (i + 1)) := by
  ext xs
  cases xs with
  | nil => simp [Items]
  | cons x xs => simp [cons_mem_items]

lemma apart_nil (s : Set (α × List α)) : Apart (List.compareLex cmp) (List.Lex lt) {[]}
    ((fun p : α × List α => p.1 :: p.2) '' s) := by
  rintro _ rfl _ ⟨p, -, rfl⟩
  exact ⟨rfl, rfl, .nil, List.not_lex_nil⟩

/-- Lists are compared at the first difference, and a list comes before those it begins. -/
lemma placedIn_lex {s : ℕ → Set α} {xs : List α}
    (h : xs ∈ Items fun i => {x | x ∈ s i ∧ PlacedIn cmp lt (s i) x}) :
    PlacedIn (List.compareLex cmp) (List.Lex lt) (Items s) xs := by
  induction xs generalizing s with
  | nil =>
    rw [items_eq]
    exact (PlacedIn.singleton rfl List.not_lex_nil).before rfl (apart_nil _)
  | cons x xs ih =>
    obtain ⟨⟨hmem, hx⟩, hxs⟩ := cons_mem_items.1 h
    rw [items_eq]
    refine PlacedIn.after ?_ ⟨(x, xs), ⟨hmem, fun i y hy => (hxs i y hy).1⟩, rfl⟩ (apart_nil _)
    refine (hx.prod (ih hxs)).map (fun p : α × List α => p.1 :: p.2) (fun p q => ?_) fun p q => ?_
    · exact List.compareLex_cons_cons
    · rw [List.cons_lex_cons_iff, Prod.lex_def]

lemma compareLex_map {α β : Type} {cmp : β → β → Ordering} (f : α → β) (xs ys : List α) :
    List.compareLex cmp (xs.map f) (ys.map f) =
      List.compareLex (fun x y => cmp (f x) (f y)) xs ys := by
  induction xs generalizing ys with
  | nil => cases ys <;> rfl
  | cons x xs ih =>
    cases ys with
    | nil => rfl
    | cons y ys =>
      rw [List.map_cons, List.map_cons, List.compareLex_cons_cons, ih, List.compareLex_cons_cons]

/-- Numbers, and what is compared like numbers, item by item. -/
lemma placedIn_numbers {α κ : Type} [LT α] [LinearOrder κ] {f : α → κ} (hf : f.Injective)
    (hlt : ∀ x y, x < y ↔ f x < f y) (xs : List α) :
    PlacedIn (List.compareLex fun x y => compare (f x) (f y)) (List.Lex (· < ·)) Set.univ xs := by
  have hitem (x : α) : PlacedIn (fun x y => compare (f x) (f y)) (· < ·) Set.univ x := by
    rw [← Set.image_id Set.univ]
    exact (placedIn_linear Set.univ (f x)).image id f hf (fun _ _ => trivial) (fun _ _ => rfl) hlt
  refine (placedIn_lex (s := fun _ => Set.univ) ?_).mono fun _ _ => mem_items_const.2 ?_
  · exact mem_items_const.2 fun x _ => ⟨trivial, hitem x⟩
  · exact fun _ _ => trivial

end Lists

end WireContract.Wire
