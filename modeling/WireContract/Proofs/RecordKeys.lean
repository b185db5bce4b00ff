import Mathlib.Data.List.Nodup
import Mathlib.Tactic.Common
import WireContract.Proofs.RecordFields

/-!
# Records read by their rules

The entries of an object are read in the order of the object, and each one changes the record by the
rule that has its key.  Rules that set different parts of a record may be taken in any order
(`RecordField.Commutes`).  For such rules the run over the object is the same as a run over the
rules, each of which reads what the object has under its key (`readRecord_obj_keys_iff`).  So all
that is read of an object is what it has under the keys of the rules.  An array is read by the rules
in their order from the start (`readRecord_arr_iff`).
-/

namespace WireContract.Json

open Outcome

variable {ρ α β : Type}

/-- Reading by one rule and then by the other gives what reading the other way round gives. -/
def RecordField.Commutes (a b : RecordField ρ) : Prop :=
  ∀ r d d' x z, (∃ y, a.read r d x = .ok y ∧ b.read r d' y = .ok z) ↔
    ∃ y, b.read r d' x = .ok y ∧ a.read r d y = .ok z

/-- Rules that set what they read commute if the settings do. -/
lemma RecordField.commutes_setting {key key' : String} {p p' : Presence}
    {f : Reader → Draft → Except Fault α} {g : Reader → Draft → Except Fault β}
    {set : α → ρ → ρ} {set' : β → ρ → ρ} (h : ∀ a b x, set' b (set a x) = set a (set' b x)) :
    Commutes (.setting key p f set) (.setting key' p' g set') := by
  intro r d d' x z
  simp only [setting, bind_ok_iff, pure_ok_iff]
  constructor
  · rintro ⟨y, ⟨a, ha, rfl⟩, b, hb, rfl⟩
    exact ⟨_, ⟨b, hb, rfl⟩, a, ha, (h a b x).symm⟩
  · rintro ⟨y, ⟨b, hb, rfl⟩, a, ha, rfl⟩
    exact ⟨_, ⟨a, ha, rfl⟩, b, hb, h a b x⟩

/-- Rules with a key each that may be taken in any order. -/
structure Independent (rules : List (RecordField ρ)) : Prop where
  names : (rules.map (·.name)).Nodup
  commute : rules.Pairwise RecordField.Commutes

/-- A single rule is independent. -/
lemma independent_singleton (rule : RecordField ρ) : Independent [rule] :=
  ⟨List.nodup_singleton _, List.pairwise_singleton _ _⟩

/-- The rules, in their order, lead from one record to another, each reading what is found under its
key. -/
def ReadsKeys (r : Reader) (fields : List (String × Json)) : List (RecordField ρ) → ρ → ρ → Prop
  | [], x, z => x = z
  | rule :: rules, x, z =>
    match fields.lookup rule.name with
    | none => ReadsKeys r fields rules x z
    | some j => ∃ y, rule.read r (Draft.ofJson j) x = .ok y ∧ ReadsKeys r fields rules y z

section ReadsKeys

variable {r : Reader} {fields fields' : List (String × Json)} {rule : RecordField ρ}
  {rules : List (RecordField ρ)} {x z : ρ}

lemma readsKeys_cons_of_none (h : fields.lookup rule.name = none) :
    ReadsKeys r fields (rule :: rules) x z ↔ ReadsKeys r fields rules x z := by
  rw [ReadsKeys, h]

lemma readsKeys_cons_of_some {j : Json} (h : fields.lookup rule.name = some j) :
    ReadsKeys r fields (rule :: rules) x z ↔
      ∃ y, rule.read r (Draft.ofJson j) x = .ok y ∧ ReadsKeys r fields rules y z := by
  rw [ReadsKeys, h]

/-- Only what is found under the keys of the rules is read. -/
lemma readsKeys_congr (h : ∀ rule ∈ rules, fields.lookup rule.name = fields'.lookup rule.name) :
    ReadsKeys r fields rules x z ↔ ReadsKeys r fields' rules x z := by
  induction rules generalizing x with
  | nil => rfl
  | cons rule rules ih =>
    rw [List.forall_mem_cons] at h
    cases hfound : fields.lookup rule.name with
    | none => rw [readsKeys_cons_of_none hfound, readsKeys_cons_of_none (h.1 ▸ hfound), ih h.2]
    | some j =>
      rw [readsKeys_cons_of_some hfound, readsKeys_cons_of_some (h.1 ▸ hfound)]
      exact exists_congr fun y => and_congr_right fun _ => ih h.2

lemma lookup_cons_of_ne {key k : String} {j : Json} (h : k ≠ key) :
    List.lookup k ((key, j) :: fields) = fields.lookup k := by
  rw [List.lookup_cons, beq_false_of_ne h]

/-- What is found under one key may be read first. -/
lemma readsKeys_cons_iff (hrules : Independent rules) (hrule : rule ∈ rules) {j : Json}
    (hnone : fields.lookup rule.name = none) :
    ReadsKeys r ((rule.name, j) :: fields) rules x z ↔
      ∃ y, rule.read r (Draft.ofJson j) x = .ok y ∧ ReadsKeys r fields rules y z := by
  induction rules generalizing x with
  | nil => cases hrule
  | cons head rules ih =>
    obtain ⟨hnames, hcommute⟩ := id hrules
    rw [List.map_cons, List.nodup_cons] at hnames
    rw [List.pairwise_cons] at hcommute
    rcases List.mem_cons.1 hrule with rfl | hrule
    · have hrest : ∀ rule' ∈ rules,
          List.lookup rule'.name ((rule.name, j) :: fields) = fields.lookup rule'.name :=
        fun rule' hrule' => lookup_cons_of_ne fun heq =>
          hnames.1 (List.mem_map.2 ⟨rule', hrule', heq⟩)
      rw [readsKeys_cons_of_some List.lookup_cons_self]
      simp only [readsKeys_cons_of_none hnone, readsKeys_congr hrest]
    · have hne : head.name ≠ rule.name := fun heq =>
        hnames.1 (List.mem_map.2 ⟨rule, hrule, heq.symm⟩)
      have ih' := fun {x} => @ih x ⟨hnames.2, hcommute.2⟩ hrule
      cases hhead : fields.lookup head.name with
      | none =>
        rw [readsKeys_cons_of_none ((lookup_cons_of_ne hne).trans hhead), ih']
        simp only [readsKeys_cons_of_none hhead]
      | some i =>
        rw [readsKeys_cons_of_some ((lookup_cons_of_ne hne).trans hhead)]
        simp only [readsKeys_cons_of_some hhead, ih']
        -- the rule is exchanged with the one before it
        have hswap := hcommute.1 rule hrule r (Draft.ofJson i) (Draft.ofJson j) x
        constructor
        · rintro ⟨y, hy, y', hy', h⟩
          obtain ⟨w, hw, hw'⟩ := (hswap y').1 ⟨y, hy, hy'⟩
          exact ⟨w, hw, y', hw', h⟩
        · rintro ⟨w, hw, y', hw', h⟩
          obtain ⟨y, hy, hy'⟩ := (hswap y').2 ⟨w, hw, hw'⟩
          exact ⟨y, hy, y', hy', h⟩

end ReadsKeys

section Objects

variable {r : Reader} {rules : List (RecordField ρ)} {fields : List (String × Json)} {x z : ρ}

/-- The run over the entries of an object is a run over the rules. -/
lemma exists_readFields_iff (hrules : Independent rules) (hkeys : (fields.map Prod.fst).Nodup)
    {seen : List String} (hseen : ∀ key ∈ fields.map Prod.fst, key ∉ seen) :
    (∃ seen', readFields r rules x seen (Draft.ofFields fields) = .ok (z, seen')) ↔
      ReadsKeys r fields rules x z := by
  induction fields generalizing x seen with
  | nil =>
    have hrun : ∀ rules : List (RecordField ρ),
        ReadsKeys r [] rules x z ↔ x = z := by
      intro rules
      induction rules with
      | nil => rfl
      | cons rule rules ih => rw [readsKeys_cons_of_none rfl, ih]
    rw [hrun, Draft.ofFields, readFields]
    simp
  | cons p fields ih =>
    obtain ⟨key, j⟩ := p
    rw [List.map_cons, List.nodup_cons] at hkeys
    rw [List.map_cons, List.forall_mem_cons] at hseen
    obtain ⟨hkey, hkeys⟩ := hkeys
    obtain ⟨hfresh, hseen⟩ := hseen
    have hnone : fields.lookup key = none := by
      rw [List.lookup_eq_none_iff]
      intro q hq
      rw [bne_iff_ne]
      intro heq
      exact hkey (List.mem_map.2 ⟨q, hq, heq.symm⟩)
    simp only [Draft.ofFields, readFields_cons_ok_iff, Except.ok.injEq, exists_eq_left',
      skip_ofJson, true_and]
    cases hfind : rules.find? (·.name == key) with
    | none =>
      have hothers : ∀ rule ∈ rules,
          List.lookup rule.name ((key, j) :: fields) = fields.lookup rule.name := by
        intro rule hrule
        exact lookup_cons_of_ne (by simpa using List.find?_eq_none.1 hfind rule hrule)
      rw [readsKeys_congr hothers, ← ih hkeys hseen]
      simp
    | some rule =>
      have hname : rule.name = key := by simpa using List.find?_some hfind
      subst hname
      have hseen' : ∀ k ∈ fields.map Prod.fst, k ∉ rule.name :: seen := by
        intro k hk hmem
        rcases List.mem_cons.1 hmem with rfl | hmem
        · exact hkey hk
        · exact hseen k hk hmem
      rw [readsKeys_cons_iff hrules (List.mem_of_find?_eq_some hfind) hnone]
      simp only [reduceCtorEq, false_and, Option.some.injEq, exists_eq_left', false_or, hfresh,
        not_false_eq_true, true_and, ← ih hkeys hseen']
      constructor
      · rintro ⟨seen', y, hy, h⟩
        exact ⟨y, hy, seen', h⟩
      · rintro ⟨y, hy, seen', h⟩
        exact ⟨seen', y, hy, h⟩

/-- An object is read as a record exactly if it has the keys that have to be there, and the rules
read what it has under their keys. -/
theorem readRecord_obj_keys_iff (hrules : Independent rules) (hkeys : (fields.map Prod.fst).Nodup)
    {label : String} {empty : ρ} :
    readRecord r label rules empty (Draft.ofJson (.obj fields)) = .ok z ↔
      1 < r.limit ∧
        (∀ rule ∈ rules, rule.presence = .required → fields.lookup rule.name ≠ none) ∧
        ReadsKeys r.inner fields rules empty z := by
  rw [readRecord_obj_iff, ← exists_readFields_iff hrules hkeys (fun _ _ => List.not_mem_nil)]
  refine and_congr_right fun _ => ?_
  have hseen : ∀ {seen : List String},
      readFields r.inner rules empty [] (Draft.ofFields fields) = .ok (z, seen) →
        ∀ rule ∈ rules, rule.name ∈ seen ↔ fields.lookup rule.name ≠ none := by
    intro seen h rule hrule
    obtain ⟨hmissing, hthere⟩ := view_of_readFields (fun _ => ()) hrules.names hrule
      (fun _ _ _ _ _ _ _ => rfl) hkeys h
    cases hlookup : fields.lookup rule.name with
    | none => simpa using (hmissing hlookup).2
    | some j => simpa using (hthere j hlookup).1
  constructor
  · rintro ⟨seen, h, hrequired⟩
    exact ⟨fun rule hrule hreq => (hseen h rule hrule).1 (hrequired rule hrule hreq), seen, h⟩
  · rintro ⟨hrequired, seen, h⟩
    exact ⟨seen, h, fun rule hrule hreq => (hseen h rule hrule).2 (hrequired rule hrule hreq)⟩

end Objects

/-! ## Arrays -/

/-- The rules, in their order, lead from one record to another, each reading the item in its place.
Only rules with a default may be left without an item, and no item without a rule. -/
def ReadsItems (r : Reader) : List (RecordField ρ) → List Json → ρ → ρ → Prop
  | [], [], x, z => x = z
  | [], _ :: _, _, _ => False
  | rule :: rules, [], x, z => rule.presence = .defaulted ∧ ReadsItems r rules [] x z
  | rule :: rules, j :: items, x, z =>
    ∃ y, rule.read r (Draft.ofJson j) x = .ok y ∧ ReadsItems r rules items y z

lemma readElements_ok_iff {r : Reader} {rules : List (RecordField ρ)} {items : List Json} {x z : ρ}
    {expected : String} {index : ℕ} :
    readElements r expected none x index rules (items.map Draft.ofJson) = .ok (z, []) ↔
      ReadsItems r rules items x z := by
  induction rules generalizing items x index with
  | nil => cases items <;> simp [readElements, ReadsItems]
  | cons rule rules ih =>
    cases items with
    | nil =>
      have hrest := @ih [] x (index + 1)
      rw [List.map_nil] at hrest
      by_cases hdefault : rule.presence = .defaulted
      · simp [readElements, ReadsItems, Draft.closed, hdefault, hrest]
      · simp [readElements, ReadsItems, Draft.closed, hdefault]
    | cons j items => simp [readElements, ReadsItems, ih]

/-- An array is read as a record exactly if the rules read its items, each the one in its place. -/
theorem readRecord_arr_iff {r : Reader} {rules : List (RecordField ρ)} {items : List Json} {z : ρ}
    {label : String} {empty : ρ} :
    readRecord r label rules empty (Draft.ofJson (.arr items)) = .ok z ↔
      1 < r.limit ∧ ReadsItems r.inner rules items empty z := by
  have hend : ∀ (left : List Draft), noMoreElements r.source rules.length items.length none left =
      .ok () ↔ left = [] := by
    intro left
    cases left with
    | nil => simp [noMoreElements, Draft.closed]
    | cons d left => cases hsource : r.source <;> simp [noMoreElements]
  simp only [Draft.ofJson, ofItems_eq_map, readRecord, bind_ok_iff, enter_ok_iff, exists_unit_iff,
    List.length_map, hend]
  constructor
  · rintro ⟨inner, ⟨hlimit, rfl⟩, ⟨x, left⟩, hread, rfl, h⟩
    obtain rfl := pure_ok_iff.1 h
    exact ⟨hlimit, readElements_ok_iff.1 hread⟩
  · rintro ⟨hlimit, hread⟩
    exact ⟨r.inner, ⟨hlimit, rfl⟩, (z, []), readElements_ok_iff.2 hread, rfl, rfl⟩

end WireContract.Json
