import WireContract.Proofs.RecordFields

/-!
# Parts of a written record

A record may be written as an object or as an array of its fields.  `Json.part?` is what stands
there for one field, in either form.  `view_of_readRecord` says that the part of a record that one
field sets is read from what is written for that field, and from nothing else: no other key or place
of the record shows in it.  For a field that holds a list, this goes on to the items
(`forall₂_itemsUnder`).
-/

namespace WireContract.Json

open Outcome

/-! ## What is written for a field -/

/-- What is written for a field of a record with the given keys: what stands under the key in an
object, and at the place of the key in an array. -/
def part? (keys : List String) (key : String) : Json → Option Json
  | .obj fields => fields.lookup key
  | .arr items => items[keys.idxOf key]?
  | _ => none

/-- The items of the array that is written for a field; none if the field is left out. -/
def itemsUnder (keys : List String) (key : String) (j : Json) : List Json :=
  match j.part? keys key with
  | some (.arr items) => items
  | _ => []

lemma distinct_of_part? {keys : List String} {key : String} {j x : Json} (hj : j.distinct = j)
    (hx : j.part? keys key = some x) : x.distinct = x := by
  unfold part? at hx
  split at hx
  · obtain ⟨before, after, rfl, -⟩ := List.lookup_eq_some_iff.1 hx
    exact (distinct_obj_iff.1 hj).2 (key, x) (by simp)
  · exact distinct_arr_iff.1 hj x (List.mem_of_getElem? hx)
  · cases hx

lemma distinct_of_mem_itemsUnder {keys : List String} {key : String} {j x : Json}
    (hj : j.distinct = j) (hx : x ∈ j.itemsUnder keys key) : x.distinct = x := by
  unfold itemsUnder at hx
  split at hx
  case h_1 items hitems => exact distinct_arr_iff.1 (distinct_of_part? hj hitems) x hx
  case h_2 => exact absurd hx List.not_mem_nil

/-! ## What is read for a field -/

/-- Reading the field leaves a part of the record as it is. -/
def RecordField.Keeps {ρ β : Type} (view : ρ → β) (rule : RecordField ρ) : Prop :=
  ∀ r d record record', rule.read r d record = .ok record' → view record' = view record

section Parts

variable {ρ α β : Type} {r : Reader} {rules : List (RecordField ρ)}

@[simp] lemma RecordField.name_setting {key : String} {p : Presence}
    {read : Reader → Draft → Except Fault α} {set : α → ρ → ρ} :
    (RecordField.setting key p read set).name = key := rfl

lemma RecordField.keeps_setting {view : ρ → β} {key : String} {p : Presence}
    {read : Reader → Draft → Except Fault α} {set : α → ρ → ρ}
    (h : ∀ a x, view (set a x) = view x) : (RecordField.setting key p read set).Keeps view := by
  intro r d x y hread
  obtain ⟨a, -, hy⟩ := bind_ok_iff.1 hread
  rw [← pure_ok_iff.1 hy]
  exact h a x

/-- Elements that no rule takes for a part of the record leave it as it is. -/
lemma readElements_keeps {view : ρ → β} (hkeeps : ∀ rule ∈ rules, rule.Keeps view)
    {expected : String} {stop : Option Stop} {record : ρ} {index : ℕ} {items : List Draft}
    {result : ρ × List Draft}
    (h : readElements r expected stop record index rules items = .ok result) :
    view result.1 = view record := by
  have hstep : ∀ rule ∈ rules, ∀ (d : Draft) (x : ρ) (_ : List String) (y : ρ),
      view x = view record → rule.read r d x = .ok y → view y = view record :=
    fun rule hrule d x _ y hx hread => (hkeeps rule hrule r d x y hread).trans hx
  obtain ⟨-, hview, -, -⟩ := @readElements_invariant ρ r rules (fun x _ => view x = view record)
    hstep expected stop items record [] index result rfl h
  exact hview

/-- What is known of a part `view` of the record that only one rule sets, after the elements of an
array were read. -/
lemma view_of_readElements (view : ρ → β) (hnodup : (rules.map (·.name)).Nodup)
    {rule : RecordField ρ} (hrule : rule ∈ rules)
    (hframe : ∀ rule' ∈ rules, rule'.name ≠ rule.name → rule'.Keeps view) {expected : String}
    {stop : Option Stop} {record record' : ρ} {index : ℕ} {items : List Json} {left : List Draft}
    (h : readElements r expected stop record index rules (items.map Draft.ofJson) =
      .ok (record', left)) :
    (items[(rules.map (·.name)).idxOf rule.name]? = none →
      rule.presence = .defaulted ∧ view record' = view record) ∧
    ∀ j, items[(rules.map (·.name)).idxOf rule.name]? = some j → ∃ before after,
      rule.read r (Draft.ofJson j) before = .ok after ∧ view record' = view after := by
  induction rules generalizing items record index with
  | nil => exact absurd hrule List.not_mem_nil
  | cons first rules ih =>
    rw [List.map_cons, List.nodup_cons] at hnodup
    obtain ⟨hfirst, hnodup⟩ := hnodup
    obtain ⟨hkeeps, hframes⟩ := List.forall_mem_cons.1 hframe
    rw [List.map_cons, List.idxOf_cons]
    by_cases hname : first.name = rule.name
    · obtain rfl | hmem := List.mem_cons.1 hrule
      swap
      · exact absurd (List.mem_map.2 ⟨rule, hmem, hname.symm⟩) hfirst
      -- the other rules have other names
      have hlater : ∀ rule' ∈ rules, rule'.Keeps view := by
        intro rule' hrule'
        apply hframes rule' hrule'
        intro hsame
        exact hfirst (List.mem_map.2 ⟨rule', hrule', hsame⟩)
      rw [beq_self_eq_true, cond_true]
      cases items with
      | nil =>
        rw [List.map_nil, readElements, check_bind_ok_iff] at h
        obtain ⟨-, h⟩ := h
        split_ifs at h with hdefault
        simp [beq_iff_eq.1 hdefault, readElements_keeps hlater h]
      | cons j items =>
        rw [List.map_cons, readElements, bind_ok_iff] at h
        obtain ⟨x, hread, h⟩ := h
        have hview := readElements_keeps hlater h
        simp only [List.getElem?_cons_zero, reduceCtorEq, false_implies, Option.some.injEq,
          forall_eq', true_and]
        exact ⟨record, x, hread, hview⟩
    · have hmem : rule ∈ rules := by
        obtain rfl | hmem := List.mem_cons.1 hrule
        · exact absurd rfl hname
        · exact hmem
      rw [beq_false_of_ne hname, cond_false]
      cases items with
      | nil =>
        rw [List.map_nil, readElements, check_bind_ok_iff] at h
        obtain ⟨-, h⟩ := h
        split_ifs at h with hdefault
        exact ih hnodup hmem hframes
          (show readElements r expected stop record _ rules ([].map Draft.ofJson) = _ from h)
      | cons j items =>
        rw [List.map_cons, readElements, bind_ok_iff] at h
        obtain ⟨x, hread, h⟩ := h
        rw [List.getElem?_cons_succ, ← hkeeps hname r _ _ _ hread]
        exact ih hnodup hmem hframes h

/-- The part of a record that one field sets.  It is read from what is written for the field, and is
as in the empty record if nothing is, which the field has to allow. -/
theorem view_of_readRecord (view : ρ → α) (hnodup : (rules.map (·.name)).Nodup) {key : String}
    {p : Presence} {read : Reader → Draft → Except Fault α} {set : α → ρ → ρ}
    (hrule : .setting key p read set ∈ rules) (hset : ∀ a x, view (set a x) = a)
    (hframe : ∀ rule ∈ rules, rule.name ≠ key → rule.Keeps view) {label : String}
    {empty record : ρ} {j : Json} (hj : j.distinct = j)
    (h : readRecord r label rules empty (Draft.ofJson j) = .ok record) :
    (j.part? (rules.map (·.name)) key = none → p ≠ .required ∧ view record = view empty) ∧
    ∀ x, j.part? (rules.map (·.name)) key = some x →
      read r.inner (Draft.ofJson x) = .ok (view record) := by
  have hread : ∀ {x : Json}, (∃ before after, (RecordField.setting key p read set).read r.inner
      (Draft.ofJson x) before = .ok after ∧ view record = view after) →
      read r.inner (Draft.ofJson x) = .ok (view record) := by
    rintro x ⟨before, after, hsetting, hview⟩
    obtain ⟨a, ha, hafter⟩ := bind_ok_iff.1 hsetting
    rw [ha, hview, ← pure_ok_iff.1 hafter, hset]
  cases j with
  | obj fields =>
    obtain ⟨-, seen, hfields, hrequired⟩ := readRecord_obj_iff.1 h
    obtain ⟨hmissing, hthere⟩ := view_of_readFields view hnodup hrule
      (fun rule hmem hne d x y => hframe rule hmem hne r.inner d x y) (distinct_obj_iff.1 hj).1
      hfields
    refine ⟨fun hnone => ⟨fun hp => ?_, (hmissing hnone).1⟩, fun x hx => hread (hthere x hx).2⟩
    exact List.not_mem_nil ((hmissing hnone).2.1 (hrequired _ hrule hp))
  | arr items =>
    simp only [Draft.ofJson, ofItems_eq_map, readRecord, bind_ok_iff, enter_ok_iff, exists_unit_iff]
      at h
    obtain ⟨inner, ⟨-, rfl⟩, ⟨record', left⟩, hitems, -, hrecord⟩ := h
    obtain rfl := pure_ok_iff.1 hrecord
    obtain ⟨hmissing, hthere⟩ := view_of_readElements view hnodup hrule hframe hitems
    refine ⟨fun hnone => ?_, fun x hx => hread (hthere x hx)⟩
    obtain ⟨hdefault, hview⟩ := hmissing hnone
    refine ⟨fun hp => ?_, hview⟩
    cases hp.symm.trans hdefault
  | null | bool | num | str => exact absurd h unexpected_ne_ok

/-- The items of a list that a field sets are read one by one. -/
lemma forall₂_itemsUnder (view : ρ → List α) (hnodup : (rules.map (·.name)).Nodup) {key : String}
    {p : Presence} {read : Reader → Draft → Except Fault α} {set : List α → ρ → ρ}
    (hrule : .setting key p (fun r => readList r read) set ∈ rules)
    (hset : ∀ a x, view (set a x) = a)
    (hframe : ∀ rule ∈ rules, rule.name ≠ key → rule.Keeps view) {label : String}
    {empty record : ρ} (hempty : view empty = []) {j : Json} (hj : j.distinct = j)
    (h : readRecord r label rules empty (Draft.ofJson j) = .ok record) :
    List.Forall₂ (fun x a => read r.inner.inner (Draft.ofJson x) = .ok a)
      (j.itemsUnder (rules.map (·.name)) key) (view record) := by
  obtain ⟨hmissing, hthere⟩ := view_of_readRecord view hnodup hrule hset hframe hj h
  unfold itemsUnder
  cases hx : j.part? (rules.map (·.name)) key with
  | none =>
    rw [(hmissing hx).2, hempty]
    exact .nil
  | some x =>
    obtain ⟨ds, hds, -, hread⟩ := readList_ok_iff.1 (hthere x hx)
    cases x with
    | arr items =>
      obtain ⟨rfl, -⟩ := Draft.arr.inj hds
      rw [ofItems_eq_map] at hread
      exact List.forall₂_map_left_iff.1 hread
    | null | bool | num | str | obj => cases hds

end Parts

end WireContract.Json
