import WireContract.Proofs.DocumentLayout
import WireContract.Proofs.OutlineRoundTrip
import WireContract.Schema.Document

/-!
# Alike documents

Values that are alike as documents are read alike (`readDocument_alike`): a record takes from an
object what it has under its own keys and nothing else, and an alternative is chosen by its tag.  So
they give the same document or none (`document_ofJson_alike`).

Alike values need not nest equally deep, so they are read with different limits and fuel.  What
is proved of two readers therefore says how deep each value may be (`ReadsAlike`).
-/

namespace WireContract.Schema.Outline

open Json Outcome

/-! ## Readers -/

/-- The value has its keys once and fits the reader and the fuel. -/
structure Proper (fuel : ℕ) (r : Reader) (j : Json) : Prop extends Fits fuel r j where
  distinct : j.distinct = j

namespace Proper

variable {fuel : ℕ} {r : Reader} {items : List Json} {fields : List (String × Json)}

lemma mono {fuel' : ℕ} {j : Json} (h : Proper fuel r j) (hle : fuel ≤ fuel') : Proper fuel' r j :=
  ⟨h.toFits.mono hle, h.distinct⟩

lemma keys (h : Proper fuel r (.obj fields)) : (fields.map Prod.fst).Nodup :=
  (distinct_obj_iff.1 h.distinct).1

lemma entry (h : Proper (fuel + 1) r (.obj fields)) {key : String} {j : Json}
    (hj : fields.lookup key = some j) : Proper fuel r.inner j := by
  obtain ⟨before, after, rfl, -⟩ := List.lookup_eq_some_iff.1 hj
  have hmem : (key, j) ∈ before ++ (key, j) :: after := by simp
  exact ⟨h.toFits.entry hmem, (distinct_obj_iff.1 h.distinct).2 _ hmem⟩

lemma item (h : Proper (fuel + 1) r (.arr items)) {j : Json} (hj : j ∈ items) :
    Proper fuel r.inner j :=
  ⟨h.toFits.item hj, distinct_arr_iff.1 h.distinct j hj⟩

/-- An object without one of its keys. -/
lemma erase (h : Proper fuel r (.obj fields)) (key : String) :
    Proper fuel r.setAside (.obj (erase fields key)) := by
  have hsub : ∀ p ∈ Json.erase fields key, p ∈ fields := fun p hp => List.mem_of_mem_filter hp
  have hdepth : ∀ {limit : ℕ}, (Json.obj fields).depth < limit →
      (Json.obj (Json.erase fields key)).depth < limit := by
    intro limit hlimit
    rw [depth_obj_lt_iff] at hlimit ⊢
    exact ⟨hlimit.1, fun p hp => hlimit.2 p (hsub p hp)⟩
  refine ⟨⟨hdepth h.limit, hdepth h.fuel⟩, distinct_obj_iff.2 ⟨?_, fun p hp => ?_⟩⟩
  · exact h.keys.sublist (List.filter_sublist.map Prod.fst)
  · exact (distinct_obj_iff.1 h.distinct).2 p (hsub p hp)

/-- An array without its first item. -/
lemma tail {j : Json} (h : Proper fuel r (.arr (j :: items))) :
    Proper fuel r.setAside (.arr items) := by
  have hdepth : ∀ {limit : ℕ}, (Json.arr (j :: items)).depth < limit →
      (Json.arr items).depth < limit := by
    intro limit hlimit
    rw [depth_arr_lt_iff] at hlimit ⊢
    exact ⟨hlimit.1, fun x hx => hlimit.2 x (List.mem_cons_of_mem _ hx)⟩
  refine ⟨⟨hdepth h.limit, hdepth h.fuel⟩, distinct_arr_iff.2 fun x hx => ?_⟩
  exact distinct_arr_iff.1 h.distinct x (List.mem_cons_of_mem _ hx)

end Proper

/-- Two readers read alike values at a place alike, if each value is within its own depth. -/
def ReadsAlike {α : Type} (n n' : ℕ) (p : Place) (f f' : Reader → Draft → Except Fault α) : Prop :=
  ∀ ⦃r r' : Reader⦄ ⦃v w : Json⦄, r.source = r'.source → Proper n r v → Proper n' r' w →
    Alike r.source p v w → ∀ x, f r (Draft.ofJson v) = .ok x ↔ f' r' (Draft.ofJson w) = .ok x

lemma exists_of_isSome_eq {o o' : Option Json} {x : Json} (h : o.isSome = o'.isSome)
    (hx : o = some x) : ∃ y, o' = some y := by
  subst hx
  exact Option.isSome_iff_exists.1 h.symm

/-- Lists of equal length whose elements in each place are read alike are read alike. -/
lemma forall₂_iff_of_getElem? {α : Type} {R S : Json → α → Prop} {xs ys : List Json} {l : List α}
    (hlength : xs.length = ys.length)
    (h : ∀ (i : ℕ) x y, xs[i]? = some x → ys[i]? = some y → ∀ a, R x a ↔ S y a) :
    List.Forall₂ R xs l ↔ List.Forall₂ S ys l := by
  induction xs generalizing ys l with
  | nil =>
    obtain rfl := List.length_eq_zero_iff.1 hlength.symm
    simp only [List.forall₂_nil_left_iff]
  | cons x xs ih =>
    cases ys with
    | nil => cases hlength
    | cons y ys =>
      have ih' := fun {l} => @ih ys l (Nat.succ.inj hlength) fun i x y => h (i + 1) x y
      simp only [List.forall₂_cons_left_iff, h 0 x y rfl rfl, ih']

namespace ReadsAlike

variable {α β : Type} {n n' : ℕ} {p q : Place} {f f' : Reader → Draft → Except Fault α}

/-- One step less may be taken. -/
lemma pred (h : ReadsAlike (n + 1) (n' + 1) p f f') : ReadsAlike n n' p f f' :=
  fun _ _ _ _ hsource hv hw => h hsource (hv.mono (Nat.le_succ n)) (hw.mono (Nat.le_succ n'))

lemma map (h : ReadsAlike n n' p f f') (g : α → β) :
    ReadsAlike n n' p (fun r d => g <$> f r d) (fun r d => g <$> f' r d) := by
  intro r r' v w hsource hv hw halike x
  simp only [map_ok_iff, h hsource hv hw halike]

lemma text {g : Draft → Except Fault α} (hp : p.layout = .text)
    (harr : ∀ items stop x, g (.arr items stop) ≠ .ok x)
    (hobj : ∀ fields stop x, g (.obj fields stop) ≠ .ok x) :
    ReadsAlike n n' p (fun _ => g) (fun _ => g) := by
  intro r r' v w hsource hv hw halike x
  rcases halike.cases_of_plain (by simp [hp]) (by simp [hp, Layout.isTagged]) with
    ⟨-, rfl⟩ | ⟨xs, ys, rfl, rfl, -⟩ | ⟨f, g, rfl, rfl, -⟩
  · rfl
  · exact iff_of_false (harr _ _ _) (harr _ _ _)
  · exact iff_of_false (hobj _ _ _) (hobj _ _ _)

lemma anything : ReadsAlike n n' p readAnything readAnything := by
  intro r r' v w hsource hv hw halike x
  simp only [readAnything, skip_ofJson]

lemma list (hp : p.layout = .list q) (h : ReadsAlike n n' q f f') :
    ReadsAlike (n + 1) (n' + 1) p (fun r => readList r f) (fun r => readList r f') := by
  have hscalar : ∀ {r : Reader} {g : Reader → Draft → Except Fault α} {v : Json} {l : List α},
      isScalar v = true → readList r g (Draft.ofJson v) ≠ .ok l := by
    intro r g v l hv
    cases v with
    | arr | obj => cases hv
    | _ => exact unexpected_ne_ok
  intro r r' v w hsource hv hw halike l
  rcases halike.cases_of_plain (by simp [hp]) (by simp [hp, Layout.isTagged]) with
    ⟨hvalue, rfl⟩ | ⟨xs, ys, rfl, rfl, hlength, hitems⟩ | ⟨f, g, rfl, rfl, -⟩
  · exact iff_of_false (hscalar hvalue) (hscalar hvalue)
  · have hread : ∀ i x y, xs[i]? = some x → ys[i]? = some y → ∀ a,
        f r.inner (Draft.ofJson x) = .ok a ↔ f' r'.inner (Draft.ofJson y) = .ok a :=
      fun i x y hx hy => h hsource (hv.item (List.mem_of_getElem? hx))
        (hw.item (List.mem_of_getElem? hy)) (hitems i q x y (by rw [hp]; rfl) hx hy)
    simp only [readList_ok_iff, Draft.ofJson, ofItems_eq_map, Draft.arr.injEq, and_true,
      exists_eq_left', hv.toFits.one_lt_of_arr, hw.toFits.one_lt_of_arr, true_and,
      List.forall₂_map_left_iff]
    exact forall₂_iff_of_getElem? hlength hread
  · exact iff_of_false unexpected_ne_ok unexpected_ne_ok

end ReadsAlike

/-! ### Records -/

/-- Rules that set alike what they read alike, for the fields of a record in their order. -/
inductive RulesAlike {ρ : Type} (n n' : ℕ) :
    List (RecordField ρ) → List (RecordField ρ) → List (String × Place) → Prop where
  | nil {fields : List (String × Place)} : RulesAlike n n' [] [] fields
  | cons {α : Type} {key : String} {presence : Presence} {set : α → ρ → ρ} {q : Place}
      {f f' : Reader → Draft → Except Fault α} {rules rules' : List (RecordField ρ)}
      {fields : List (String × Place)} (hread : ReadsAlike n n' q f f')
      (hrest : RulesAlike n n' rules rules' fields) :
      RulesAlike n n' (.setting key presence f set :: rules)
        (.setting key presence f' set :: rules') ((key, q) :: fields)

namespace RulesAlike

variable {ρ : Type} {n n' : ℕ} {rules rules' : List (RecordField ρ)}
  {fields : List (String × Place)} {r r' : Reader}

/-- Alike objects have the same keys that are required. -/
lemma required_iff (h : RulesAlike n n' rules rules' fields) {f g : List (String × Json)}
    (hkeys : ∀ key q, (key, q) ∈ fields → (f.lookup key).isSome = (g.lookup key).isSome) :
    (∀ rule ∈ rules, rule.presence = .required → f.lookup rule.name ≠ none) ↔
      ∀ rule ∈ rules', rule.presence = .required → g.lookup rule.name ≠ none := by
  induction h with
  | nil => simp
  | @cons α key presence set q _ _ _ _ _ _ _ ih =>
    have hhead := hkeys key q List.mem_cons_self
    have hiff : f.lookup key ≠ none ↔ g.lookup key ≠ none := by
      rw [← Option.isSome_iff_ne_none, ← Option.isSome_iff_ne_none, hhead]
    rw [List.forall_mem_cons, List.forall_mem_cons,
      ih fun key q hq => hkeys key q (List.mem_cons_of_mem _ hq)]
    exact and_congr_left' (imp_congr_right fun _ => hiff)

/-- The rules read alike objects alike. -/
lemma readsKeys_iff (h : RulesAlike n n' rules rules' fields) {f g : List (String × Json)}
    (hkeys : ∀ key q, (key, q) ∈ fields → (f.lookup key).isSome = (g.lookup key).isSome)
    (hsource : r.source = r'.source)
    (hvalues : ∀ key q, (key, q) ∈ fields → ∀ x y, f.lookup key = some x → g.lookup key = some y →
      Proper n r x ∧ Proper n' r' y ∧ Alike r.source q x y) (a z : ρ) :
    ReadsKeys r f rules a z ↔ ReadsKeys r' g rules' a z := by
  induction h generalizing a with
  | nil => exact Iff.rfl
  | @cons α key presence set q read read' _ _ _ hread _ ih =>
    have ih' := ih (fun key q hq => hkeys key q (List.mem_cons_of_mem _ hq))
      fun key q hq => hvalues key q (List.mem_cons_of_mem _ hq)
    have hhead := hkeys key q List.mem_cons_self
    cases hf : f.lookup key with
    | none =>
      have hg : g.lookup key = none := by simpa [hf] using hhead.symm
      rw [readsKeys_cons_of_none hf, readsKeys_cons_of_none hg, ih']
    | some x =>
      obtain ⟨y, hg⟩ := exists_of_isSome_eq hhead hf
      obtain ⟨hx, hy, halike⟩ := hvalues key q List.mem_cons_self x y hf hg
      rw [readsKeys_cons_of_some hf, readsKeys_cons_of_some hg]
      simp only [RecordField.setting, bind_ok_iff, pure_ok_iff, hread hsource hx hy halike, ih']

/-- The rules read alike arrays alike. -/
lemma readsItems_iff (h : RulesAlike n n' rules rules' fields) {xs ys : List Json}
    (hlength : xs.length = ys.length) (hsource : r.source = r'.source)
    (hitems : ∀ (i : ℕ) q x y, fields[i]?.map Prod.snd = some q → xs[i]? = some x →
      ys[i]? = some y → Proper n r x ∧ Proper n' r' y ∧ Alike r.source q x y) (a z : ρ) :
    ReadsItems r rules xs a z ↔ ReadsItems r' rules' ys a z := by
  induction h generalizing xs ys a with
  | nil => cases xs <;> cases ys <;> simp [ReadsItems] at hlength ⊢
  | @cons α key presence set q read read' _ _ _ hread _ ih =>
    cases xs with
    | nil =>
      obtain rfl := List.length_eq_zero_iff.1 hlength.symm
      simp only [ReadsItems, ih hlength (by simp)]
      rfl
    | cons x xs =>
      cases ys with
      | nil => cases hlength
      | cons y ys =>
        obtain ⟨hx, hy, halike⟩ := hitems 0 q x y rfl rfl rfl
        have ih' := @ih xs ys (Nat.succ.inj hlength) fun i q x y => hitems (i + 1) q x y
        simp only [ReadsItems, RecordField.setting, bind_ok_iff, pure_ok_iff,
          hread hsource hx hy halike, ih']

end RulesAlike

lemma ReadsAlike.record {ρ : Type} {n n' : ℕ} {p : Place} {rules rules' : List (RecordField ρ)}
    {fields : List (String × Place)} (hp : p.layout = .record fields)
    (h : RulesAlike n n' rules rules' fields) (hrules : Independent rules)
    (hrules' : Independent rules') (label : String) (empty : ρ) :
    ReadsAlike (n + 1) (n' + 1) p (fun r => readRecord r label rules empty)
      (fun r => readRecord r label rules' empty) := by
  have hscalar : ∀ {r : Reader} {rules : List (RecordField ρ)} {v : Json} {x : ρ},
      isScalar v = true → readRecord r label rules empty (Draft.ofJson v) ≠ .ok x := by
    intro r rules v x hv
    cases v with
    | arr | obj => cases hv
    | _ => exact unexpected_ne_ok
  intro r r' v w hsource hv hw halike z
  have hinner : r.inner.source = r'.inner.source := hsource
  rcases halike.cases_of_plain (by simp [hp]) (by simp [hp, Layout.isTagged]) with
    ⟨hvalue, rfl⟩ | ⟨xs, ys, rfl, rfl, hlength, hitems⟩ | ⟨f, g, rfl, rfl, hobj⟩
  · exact iff_of_false (hscalar hvalue) (hscalar hvalue)
  · simp only [readRecord_arr_iff, hv.toFits.one_lt_of_arr, hw.toFits.one_lt_of_arr, true_and]
    refine h.readsItems_iff hlength hinner (fun i q x y hq hx hy => ?_) empty z
    exact ⟨hv.item (List.mem_of_getElem? hx), hw.item (List.mem_of_getElem? hy),
      hitems i q x y (by rw [hp]; exact hq) hx hy⟩
  · rw [hp] at hobj
    have hkeys := fun key q hq => (hobj key q hq).1
    simp only [readRecord_obj_keys_iff hrules hv.keys, readRecord_obj_keys_iff hrules' hw.keys,
      hv.toFits.one_lt_of_obj, hw.toFits.one_lt_of_obj, true_and, h.required_iff hkeys]
    refine and_congr_right fun _ => h.readsKeys_iff hkeys hinner (fun key q hq x y hx hy => ?_) _ _
    exact ⟨hv.entry hx, hw.entry hy, (hobj key q hq).2 x y hx hy⟩

/-! ### Alternatives -/

/-- Readers of the same alternatives that read them alike. -/
inductive VariantsAlike {α : Type} (n n' : ℕ) :
    List (String × (Reader → Draft → Except Fault α)) →
      List (String × (Reader → Draft → Except Fault α)) → List (String × Place) → Prop where
  | nil : VariantsAlike n n' [] [] []
  | cons {tag : String} {q : Place} {f f' : Reader → Draft → Except Fault α}
      {readers readers' : List (String × (Reader → Draft → Except Fault α))}
      {variants : List (String × Place)} (hread : ReadsAlike n n' q f f')
      (hrest : VariantsAlike n n' readers readers' variants) :
      VariantsAlike n n' ((tag, f) :: readers) ((tag, f') :: readers') ((tag, q) :: variants)

/-- What a tag may name: nothing, or readers that read a place alike. -/
inductive NamesAlike {α : Type} (n n' : ℕ) : Option (Reader → Draft → Except Fault α) →
    Option (Reader → Draft → Except Fault α) → Option Place → Prop where
  | none : NamesAlike n n' none none none
  | some {q : Place} {f f' : Reader → Draft → Except Fault α} (hread : ReadsAlike n n' q f f') :
      NamesAlike n n' (some f) (some f') (some q)

lemma readVariant_ok_iff {α : Type} {s : Source} {variants : List (String × α)} {tag : Json}
    {a : α} :
    readVariant s variants (Draft.ofJson tag) = .ok a ↔ variant? s variants tag = some a := by
  cases tag with
  | str tag =>
    cases hlookup : variants.lookup tag <;> simp [Draft.ofJson, readVariant, variant?, hlookup]
  | num k =>
    cases k with
    | int k =>
      by_cases hindex : s = .setAside ∧ 0 ≤ k
      · cases hitem : variants[k.toNat]? <;>
          simp [Draft.ofJson, readVariant, variant?, hindex, hitem]
      · have hindex' : (s == .setAside && decide (0 ≤ k)) = false := by simpa using hindex
        simp [Draft.ofJson, readVariant, variant?, hindex, hindex', unexpected_ne_ok]
    | double x => simp [Draft.ofJson, readVariant, variant?, unexpected_ne_ok]
  | _ => simp [Draft.ofJson, readVariant, variant?, unexpected_ne_ok]

namespace VariantsAlike

variable {α : Type} {n n' : ℕ} {variants : List (String × Place)}
  {readers readers' : List (String × (Reader → Draft → Except Fault α))}

lemma lookup (h : VariantsAlike n n' readers readers' variants) (tag : String) :
    NamesAlike n n' (readers.lookup tag) (readers'.lookup tag) (variants.lookup tag) := by
  induction h with
  | nil => exact .none
  | @cons key _ _ _ _ _ _ hread _ ih =>
    simp only [List.lookup_cons]
    cases tag == key with
    | true => exact .some hread
    | false => exact ih

lemma getElem? (h : VariantsAlike n n' readers readers' variants) (i : ℕ) :
    NamesAlike n n' (readers[i]?.map Prod.snd) (readers'[i]?.map Prod.snd)
      (variants[i]?.map Prod.snd) := by
  induction h generalizing i with
  | nil => exact .none
  | cons hread _ ih =>
    cases i with
    | zero => exact .some hread
    | succ i => simpa only [List.getElem?_cons_succ] using ih i

lemma variant? (h : VariantsAlike n n' readers readers' variants) (s : Source) (tag : Json) :
    NamesAlike n n' (variant? s readers tag) (variant? s readers' tag)
      (variant? s variants tag) := by
  cases tag with
  | str tag => exact h.lookup tag
  | num k =>
    cases k with
    | int k =>
      simp only [Outline.variant?]
      split_ifs with hindex
      · exact h.getElem? k.toNat
      · exact .none
    | double x => exact .none
  | _ => exact .none

end VariantsAlike

lemma readTagged_arr_ok_iff {α : Type} {r : Reader} {label key : String}
    {variants : List (String × (Reader → Draft → Except Fault α))} {tag : Json} {items : List Json}
    {x : α} :
    readTagged r label key variants (Draft.ofJson (.arr (tag :: items))) = .ok x ↔
      ∃ read, readVariant r.source variants (Draft.ofJson tag) = .ok read ∧
        read r.setAside (Draft.ofJson (.arr items)) = .ok x := by
  simp only [Draft.ofJson, Draft.ofItems, readTagged, bind_ok_iff]

/-- At places for text, alike tags name the same alternative. -/
lemma Alike.variant?_eq {α : Type} {s s' : Source} {p : Place} {tag tag' : Json}
    (h : Alike s p tag tag') (hp : p.layout = .text) (variants : List (String × α)) :
    variant? s' variants tag = variant? s' variants tag' := by
  rcases h.cases_of_plain (by simp [hp]) (by simp [hp, Layout.isTagged]) with
    ⟨-, rfl⟩ | ⟨xs, ys, rfl, rfl, -⟩ | ⟨f, g, rfl, rfl, -⟩ <;> rfl

lemma ReadsAlike.tagged {α : Type} {n n' : ℕ} {p : Place}
    {readers readers' : List (String × (Reader → Draft → Except Fault α))}
    {variants : List (String × Place)} (hp : p.layout = .tagged variants)
    (h : VariantsAlike n n' readers readers' variants) (label : String) :
    ReadsAlike n n' p (fun r => readTagged r label "type" readers)
      (fun r => readTagged r label "type" readers') := by
  have hscalar : ∀ {r : Reader} {readers : List (String × (Reader → Draft → Except Fault α))}
      {v : Json} {x : α},
      isScalar v = true → readTagged r label "type" readers (Draft.ofJson v) ≠ .ok x := by
    intro r readers v x hv
    cases v with
    | arr | obj => cases hv
    | _ => exact unexpected_ne_ok
  intro r r' v w hsource hv hw halike x
  -- what remains without the tag is read by the readers that the tag names
  have hrest : ∀ {tag tag' v w : Json}, Alike r.source .text tag tag' →
      (∀ q, variant? r.source variants tag = some q → Alike .setAside q v w) →
      Proper n r.setAside v → Proper n' r'.setAside w →
      ((∃ read, readVariant r.source readers (Draft.ofJson tag) = .ok read ∧
          read r.setAside (Draft.ofJson v) = .ok x) ↔
        ∃ read, readVariant r'.source readers' (Draft.ofJson tag') = .ok read ∧
          read r'.setAside (Draft.ofJson w) = .ok x) := by
    intro tag tag' v w htag hq hv hw
    simp only [readVariant_ok_iff, ← hsource, ← htag.variant?_eq rfl]
    generalize hf : variant? r.source readers tag = f
    generalize hf' : variant? r.source readers' tag = f'
    generalize hplace : variant? r.source variants tag = place at hq
    have hnames := h.variant? r.source tag
    rw [hf, hf', hplace] at hnames
    cases hnames with
    | none => simp
    | some hread =>
      have haside : r.setAside.source = r'.setAside.source := rfl
      simpa using hread haside hv hw (hq _ rfl) x
  rcases halike.cases_of_tagged hp with
    ⟨hvalue, rfl⟩ | ⟨rfl, rfl⟩ | ⟨tag, tag', xs, ys, rfl, rfl, htag, hq⟩ |
      ⟨f, g, rfl, rfl, hkey, hq⟩
  · exact iff_of_false (hscalar hvalue) (hscalar hvalue)
  · simp [Draft.ofJson, Draft.ofItems, readTagged]
  · simp only [readTagged_arr_ok_iff]
    exact hrest htag hq hv.tail hw.tail
  · simp only [readTagged_obj_ok_iff]
    cases hf : f.lookup "type" with
    | none =>
      have hg : g.lookup "type" = none := by simpa [hf] using hkey.symm
      simp [hg]
    | some tag =>
      obtain ⟨tag', hg⟩ := exists_of_isSome_eq hkey hf
      obtain ⟨htag, hq⟩ := hq tag tag' hf hg
      simp only [hg, Option.some.injEq, exists_eq_left']
      exact hrest htag hq (hv.erase "type") (hw.erase "type")

/-! ### The parts of a document -/

section Parts

variable (n n' : ℕ)

lemma text_alike : ReadsAlike n n' .text (fun _ => text) (fun _ => text) :=
  .text rfl (fun _ _ _ => unexpected_ne_ok) (fun _ _ _ => unexpected_ne_ok)

lemma optionalText_alike :
    ReadsAlike n n' .text (fun _ => readOption text) (fun _ => readOption text) := by
  have hne : ∀ {d : Draft} {x : Option String}, (∀ s, text d ≠ .ok s) →
      some <$> text d ≠ .ok x := by
    intro d x hd h
    obtain ⟨s, hs, -⟩ := map_ok_iff.1 h
    exact hd s hs
  exact .text rfl (fun _ _ _ => hne fun _ => unexpected_ne_ok)
    (fun _ _ _ => hne fun _ => unexpected_ne_ok)

lemma readName_alike : ReadsAlike n n' .name readName readName :=
  have htext := text_alike n n'
  (ReadsAlike.record rfl (.cons htext (.cons htext .nil)) independent_nameRules
    independent_nameRules _ _).pred

variable {n n'}

/-- What stands under the key of an alternative is one step further in. -/
lemma ReadsAlike.content {α : Type} [Inhabited α] {q : Place}
    {f f' : Reader → Draft → Except Fault α} (h : ReadsAlike n n' q f f') (label key : String) :
    ReadsAlike (n + 1) (n' + 1) (.content key q) (readOnly label key f) (readOnly label key f') :=
  .record rfl (.cons h .nil) (independent_singleton _) (independent_singleton _) label default

variable {readType readType' : Reader → Draft → Except Fault TypeExpr}

lemma ReadsAlike.item (h : ReadsAlike n n' .type readType readType') :
    ReadsAlike n n' .item (readOnly "struct RawItem" "itemType" readType)
      (readOnly "struct RawItem" "itemType" readType') :=
  (ReadsAlike.record rfl (.cons h .nil) (independent_singleton _) (independent_singleton _)
    _ default).pred

lemma readMap_alike (h : ReadsAlike n n' .type readType readType') :
    ReadsAlike n n' .map (readMap readType) (readMap readType') :=
  (ReadsAlike.record rfl (.cons h (.cons h .nil)) (independent_mapRules _)
    (independent_mapRules _) _ _).pred

lemma readExternal_alike (h : ReadsAlike n n' .type readType readType') :
    ReadsAlike n n' .external (readExternal readType) (readExternal readType') :=
  (ReadsAlike.record rfl (.cons (readName_alike n n') (.cons h .nil)) (independent_externalRules _)
    (independent_externalRules _) _ _).pred

/-- Types are read alike, each with fuel for its own depth: an alternative takes one unit of fuel
and its content is one step further in. -/
theorem readTypeWithin_alike (fuel fuel' : ℕ) :
    ReadsAlike fuel fuel' .type (readTypeWithin fuel) (readTypeWithin fuel') := by
  induction fuel generalizing fuel' with
  | zero => exact fun r r' v w _ hv => absurd hv.fuel (Nat.not_lt_zero _)
  | succ fuel ih =>
    cases fuel' with
    | zero => exact fun r r' v w _ _ hw => absurd hw.fuel (Nat.not_lt_zero _)
    | succ fuel' =>
      have hinner := ih fuel'
      have hitem := hinner.item
      intro r r' v w hsource hv hw halike x
      rw [readTypeWithin, readTypeWithin]
      refine ReadsAlike.tagged rfl ?_ "RawType" hsource hv hw halike x
      refine .cons (((text_alike _ _).content _ _).map _) ?_
      refine .cons ((hitem.content _ _).map _) ?_
      refine .cons ((hitem.content _ _).map _) ?_
      refine .cons ((hitem.content _ _).map _) ?_
      refine .cons (((readMap_alike hinner).content _ _).map _) ?_
      refine .cons (((readName_alike _ _).content _ _).map _) ?_
      exact .cons (((readExternal_alike hinner).content _ _).map _) .nil

lemma readField_alike (fuel fuel' : ℕ) :
    ReadsAlike fuel fuel' .field (readField fuel) (readField fuel') :=
  have htext := text_alike fuel fuel'
  have hoption := optionalText_alike fuel fuel'
  (ReadsAlike.record rfl
    (.cons htext (.cons (readTypeWithin_alike fuel fuel') (.cons hoption (.cons hoption .nil))))
    (independent_fieldRules fuel) (independent_fieldRules fuel') _ _).pred

lemma readFieldList_alike (fuel fuel' : ℕ) :
    ReadsAlike fuel fuel' (.list .field) (fun r => readList r (readField fuel))
      (fun r => readList r (readField fuel')) :=
  (ReadsAlike.list rfl (readField_alike fuel fuel')).pred

lemma readAlias_alike (fuel fuel' : ℕ) :
    ReadsAlike fuel fuel' .alias (readAlias fuel) (readAlias fuel') :=
  (ReadsAlike.record rfl (.cons (readName_alike fuel fuel')
    (.cons (readTypeWithin_alike fuel fuel') (.cons (optionalText_alike fuel fuel') .nil)))
    (independent_aliasRules fuel) (independent_aliasRules fuel') _ _).pred

lemma readEnum_alike (n n' : ℕ) : ReadsAlike n n' .enum readEnum readEnum :=
  have hoption := optionalText_alike n n'
  have hvalue : ReadsAlike n n' .enumValue readEnumValue readEnumValue :=
    (ReadsAlike.record rfl (.cons (text_alike n n') (.cons hoption .nil))
      independent_enumValueRules independent_enumValueRules _ _).pred
  have hvalues := (ReadsAlike.list (p := .list .enumValue) rfl hvalue).pred
  (ReadsAlike.record rfl (.cons (readName_alike n n') (.cons hvalues (.cons hoption .nil)))
    independent_enumRules independent_enumRules _ _).pred

/-- Objects and unions are alike but for the key of their fields. -/
lemma readFieldsUnder_alike (label key : String) {p : Place} (hkey : key ≠ "typeName")
    (hdocs : key ≠ "docs")
    (hp : p.layout = .record [("typeName", .name), (key, .list .field), ("docs", .text)])
    (fuel fuel' : ℕ) :
    ReadsAlike fuel fuel' p (readFieldsUnder fuel label key) (readFieldsUnder fuel' label key) :=
  (ReadsAlike.record hp (.cons (readName_alike fuel fuel')
    (.cons (readFieldList_alike fuel fuel') (.cons (optionalText_alike fuel fuel') .nil)))
    (independent_fieldsRules fuel hkey hdocs) (independent_fieldsRules fuel' hkey hdocs) _ _).pred

lemma readTypeDecl_alike (fuel fuel' : ℕ) :
    ReadsAlike fuel fuel' .typeDecl (readTypeDecl fuel) (readTypeDecl fuel') := by
  have hobject := readFieldsUnder_alike "struct RawObject" "fields" (p := .object) (by decide)
    (by decide) rfl fuel fuel'
  have hunion := readFieldsUnder_alike "struct RawUnion" "union" (p := .union) (by decide)
    (by decide) rfl fuel fuel'
  refine ReadsAlike.tagged rfl ?_ "RawTypeDefinition"
  refine .cons (((readAlias_alike fuel fuel').content _ _).map _).pred ?_
  refine .cons (((readEnum_alike fuel fuel').content _ _).map _).pred ?_
  refine .cons ((hobject.content _ _).map _).pred ?_
  exact .cons ((hunion.content _ _).map _).pred .nil

lemma readError_alike (fuel fuel' : ℕ) :
    ReadsAlike fuel fuel' .error (readError fuel) (readError fuel') := by
  have htext := text_alike fuel fuel'
  have hfields := readFieldList_alike fuel fuel'
  exact (ReadsAlike.record rfl (.cons (readName_alike fuel fuel') (.cons htext (.cons htext
    (.cons hfields (.cons hfields (.cons (optionalText_alike fuel fuel') .nil))))))
    (independent_errorRules fuel) (independent_errorRules fuel') _ _).pred

theorem readDocument_alike (fuel fuel' : ℕ) :
    ReadsAlike fuel fuel' .document (readDocument fuel) (readDocument fuel') := by
  have htypes := (ReadsAlike.list (p := .list .typeDecl) rfl (readTypeDecl_alike fuel fuel')).pred
  have herrors := (ReadsAlike.list (p := .list .error) rfl (readError_alike fuel fuel')).pred
  have hanything : ReadsAlike fuel fuel' .anything readAnything readAnything := .anything
  have hservices := (ReadsAlike.list (p := .list .anything) rfl hanything).pred
  exact (ReadsAlike.record rfl (.cons htypes (.cons herrors (.cons hservices
    (.cons hanything .nil)))) (independent_documentRules fuel) (independent_documentRules fuel')
    _ _).pred

end Parts

/-- Alike documents have the same outline or none. -/
lemma ofJson_alike {v w : Json} (hv : v.distinct = v) (hw : w.distinct = w)
    (h : Alike .value .document v w) (outline : Document) :
    ofJson v = .ok outline ↔ ofJson w = .ok outline := by
  have hproper : ∀ {v : Json}, v.distinct = v → Proper (v.depth + 1) ⟨.value, v.depth + 2⟩ v :=
    fun hv => ⟨⟨by simp, by simp⟩, hv⟩
  have hsource : Reader.source ⟨.value, v.depth + 2⟩ = Reader.source ⟨.value, w.depth + 2⟩ := rfl
  exact readDocument_alike _ _ hsource (hproper hv) (hproper hw) h outline

lemma Alike.asNat?_eq {s : Source} {v w : Json} (h : Alike s .text v w) : v.asNat? = w.asNat? := by
  rcases h.cases_of_plain (by simp [Place.layout]) rfl with
    ⟨-, rfl⟩ | ⟨xs, ys, rfl, rfl, -⟩ | ⟨f, g, rfl, rfl, -⟩ <;> rfl

end WireContract.Schema.Outline

namespace WireContract.Schema

open Json Outline Outcome

lemma readVersion_alike {v w : Json} (h : Alike .value .document v w) :
    Document.readVersion v = Document.readVersion w := by
  have hfound : (v.get? "version").bind asNat? = (w.get? "version").bind asNat? := by
    rcases h.cases_of_plain (by simp [Place.layout]) rfl with
      ⟨-, rfl⟩ | ⟨xs, ys, rfl, rfl, -⟩ | ⟨f, g, rfl, rfl, hobj⟩
    · rfl
    · rfl
    · obtain ⟨hkey, hvalue⟩ := hobj "version" .text (by simp [Place.layout, Layout.keys])
      rw [get?, get?]
      cases hf : f.lookup "version" with
      | none =>
        have hg : g.lookup "version" = none := by simpa [hf] using hkey.symm
        rw [hg]
      | some x =>
        obtain ⟨y, hg⟩ := exists_of_isSome_eq hkey hf
        rw [hg, Option.bind_some, Option.bind_some, (hvalue x y hf hg).asNat?_eq]
  rw [Document.readVersion, Document.readVersion, hfound]

/-- A value gives a document exactly if it has the supported version and an outline whose words have
a meaning. -/
lemma document_ofJson_ok_iff {v : Json} {doc : Document} :
    Document.ofJson v = .ok doc ↔
      ∃ version, Document.readVersion v = .ok version ∧
        ∃ outline, Outline.ofJson v = .ok outline ∧
          ∃ declarations, outline.check = .ok declarations ∧ ⟨version, declarations⟩ = doc := by
  rw [Document.ofJson, bind_ok_iff]
  refine exists_congr fun version => and_congr_right fun _ => ?_
  cases Outline.ofJson v with
  | error fault => simp
  | ok outline => cases hcheck : outline.check <;> simp [hcheck]

/-- Values that differ only in the order of keys, in keys that are not declared where they stand,
and inside services and extensions give the same document or none. -/
theorem document_ofJson_alike (v w : Json) (hv : v.distinct = v) (hw : w.distinct = w)
    (h : Alike .value .document v w) (doc : Document) :
    Document.ofJson v = .ok doc ↔ Document.ofJson w = .ok doc := by
  have houtline := ofJson_alike hv hw h
  rw [document_ofJson_ok_iff, document_ofJson_ok_iff, readVersion_alike h]
  simp only [houtline]

/-- A document with an alias of a list of texts and an enumeration. -/
def labels : Document :=
  ⟨1, [.alias ⟨⟨"shop", "Labels"⟩, .list (.primitive .string), none⟩,
    .enum ⟨⟨"shop", "Size"⟩, [⟨"SMALL", none⟩], none⟩]⟩

/-- The enumeration as a value. -/
def sizeDeclaration : Json :=
  tagged "enum" (.obj [("typeName", nameJson ⟨"shop", "Size"⟩),
    ("values", .arr [enumValueJson ⟨"SMALL", none⟩])])

/-- The document as a value. -/
def labelsDocument : Json :=
  .obj [("version", .num (.int 1)),
    ("types", .arr [tagged "alias" (.obj [("typeName", nameJson ⟨"shop", "Labels"⟩),
        ("alias", tagged "list" (.obj [("itemType", tagged "primitive" (.str "STRING"))]))]),
      sizeDeclaration]),
    ("services", .arr [.null]), ("extensions", .obj [])]

/-- The type of the items with the tag last and a key more. -/
def itemRearranged : Json :=
  .obj [("primitive", .str "STRING"), ("hint", .null), ("type", .str "primitive")]

/-- The alias with the name last, and with keys more in it, in its name and in its type. -/
def aliasRearranged : Json :=
  .obj [("alias", .obj [("list", .obj [("length", .num (.int 3)), ("itemType", itemRearranged)]),
      ("object", .obj []), ("type", .str "list")]),
    ("origin", .arr []),
    ("typeName", .obj [("package", .str "shop"), ("path", .null), ("name", .str "Labels")])]

/-- The document with its keys in another order, with keys at every depth that are not read, and
with other services and extensions. -/
def labelsRearranged : Json :=
  .obj [("extensions", .arr [.bool true]),
    ("comment", .str "not read"),
    ("services", .arr [.obj [("serviceName", .str "shop.Orders")]]),
    ("types", .arr [.obj [("enum", .obj []), ("alias", aliasRearranged), ("type", .str "alias")],
      sizeDeclaration]),
    ("version", .num (.int 1))]

lemma labels_alike : Alike .value .document labelsDocument labelsRearranged := by
  have hname : Alike .setAside .name (nameJson ⟨"shop", "Labels"⟩)
      (.obj [("package", .str "shop"), ("path", .null), ("name", .str "Labels")]) :=
    .of_keys rfl ⟨.some (.scalar rfl), .some (.scalar rfl)⟩
  have hitem : Alike .setAside .type (tagged "primitive" (.str "STRING")) itemRearranged :=
    .of_tag rfl rfl rfl rfl (.of_keys rfl (.some (.scalar rfl)))
  have htype : Alike .setAside .type
      (tagged "list" (.obj [("itemType", tagged "primitive" (.str "STRING"))]))
      (.obj [("list", .obj [("length", .num (.int 3)), ("itemType", itemRearranged)]),
        ("object", .obj []), ("type", .str "list")]) :=
    .of_tag rfl rfl rfl rfl (.of_keys rfl (.some (.of_keys rfl (.some hitem))))
  have hdecl : Alike .value .typeDecl
      (tagged "alias" (.obj [("typeName", nameJson ⟨"shop", "Labels"⟩),
        ("alias", tagged "list" (.obj [("itemType", tagged "primitive" (.str "STRING"))]))]))
      (.obj [("enum", .obj []), ("alias", aliasRearranged), ("type", .str "alias")]) :=
    .of_tag rfl rfl rfl rfl (.of_keys rfl (.some (.of_keys rfl ⟨.some hname, .some htype, .none⟩)))
  have hsize := Alike.refl .value .typeDecl sizeDeclaration
  exact .of_keys rfl ⟨.some (.of_items rfl (.cons hdecl (.cons hsize .nil))), .none,
    .some (.of_items rfl (.cons (.anything rfl) .nil)), .some (.anything rfl), .some (.scalar rfl)⟩

theorem document_ofJson_alike_labels :
    Document.ofJson labelsDocument = .ok labels ∧
      Document.ofJson labelsRearranged = .ok labels := by
  have hread : Document.ofJson labelsDocument = .ok labels := rfl
  exact ⟨hread, (document_ofJson_alike labelsDocument labelsRearranged rfl rfl labels_alike
    labels).1 hread⟩

end WireContract.Schema
