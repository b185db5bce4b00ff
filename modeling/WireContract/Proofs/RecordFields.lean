import Mathlib.Data.List.Nodup
import Mathlib.Tactic.Common
import WireContract.Proofs.RoundTrip

/-!
# Records read field by field

An object is read as a record key by key, with a running list of what was found and of the keys
seen.  `readObject_obj_iff` says what comes out without the run: each field of the record gets its
value from what the object has under the name of the field, and from nothing else.  The order of the
keys and keys that no field has play no part.

A whole value is read under a limit that follows from its own depth, so one value put into two
objects is read under two limits.  `decodeForm_limit` says that the limit does not show in what is
read, if it is above the depth of the value.
-/

namespace WireContract.Json

open Outcome

/-! ## Entries of an object -/

/-- Skipping over a whole value meets no fault. -/
lemma skip_ofJson (j : Json) : (Draft.ofJson j).skip = none := by
  induction j using Json.induct with
  | null | bool | num | str => rfl
  | arr items ih =>
    rw [Draft.ofJson, Draft.skip, ofItems_eq_map]
    have hitems : Draft.skipItems (items.map Draft.ofJson) = none := by
      induction items with
      | nil => rfl
      | cons x xs ihxs =>
        rw [List.forall_mem_cons] at ih
        rw [List.map_cons, Draft.skipItems, ih.1, ihxs ih.2]
        rfl
    rw [hitems]
    rfl
  | obj fields ih =>
    rw [Draft.ofJson, Draft.skip, ofFields_eq_map]
    have hfields : Draft.skipFields (fields.map fun p => (.ok p.1, Draft.ofJson p.2)) = none := by
      induction fields with
      | nil => rfl
      | cons p ps ihps =>
        rw [List.forall_mem_cons] at ih
        rw [List.map_cons, Draft.skipFields, ih.1, ihps ih.2]
        rfl
    rw [hfields]
    rfl

/-- A key that comes first and not again has the first value. -/
lemma lookup_of_cons {α : Type} {key k : String} {a : α} {l : List (String × α)}
    (hkey : key ∉ l.map Prod.fst) {b : α} (h : l.lookup k = some b) :
    List.lookup k ((key, a) :: l) = some b := by
  have hne : k ≠ key := by
    rintro rfl
    obtain ⟨before, after, rfl, -⟩ := List.lookup_eq_some_iff.1 h
    exact hkey (by simp)
  rw [List.lookup_cons, beq_false_of_ne hne]
  exact h

section Entries

variable {ρ β : Type} {r : Reader} {rules : List (RecordField ρ)} {fields : List (String × Json)}

/-- The entries of an object are read if each one that has a rule is. -/
lemma exists_readFields (hkeys : (fields.map Prod.fst).Nodup)
    (hread : ∀ rule ∈ rules, ∀ j, fields.lookup rule.name = some j → ∀ record,
      ∃ record', rule.read r (Draft.ofJson j) record = .ok record')
    (record : ρ) (seen : List String) (hseen : ∀ key ∈ fields.map Prod.fst, key ∉ seen) :
    ∃ result, readFields r rules record seen (Draft.ofFields fields) = .ok result := by
  induction fields generalizing record seen with
  | nil => exact ⟨_, rfl⟩
  | cons p fields ih =>
    obtain ⟨key, j⟩ := p
    obtain ⟨hkey, hkeys⟩ := List.nodup_cons.1 hkeys
    obtain ⟨hfresh, hseen⟩ := List.forall_mem_cons.1 hseen
    have hread' : ∀ rule ∈ rules, ∀ j', fields.lookup rule.name = some j' → ∀ record,
        ∃ record', rule.read r (Draft.ofJson j') record = .ok record' :=
      fun rule hrule j' hj' => hread rule hrule j' (lookup_of_cons hkey hj')
    cases hfind : rules.find? (·.name == key) with
    | none =>
      obtain ⟨result, hresult⟩ := ih hkeys hread' record seen hseen
      exact ⟨result, readFields_cons_ok_iff.2 ⟨key, rfl, Or.inl ⟨hfind, skip_ofJson j, hresult⟩⟩⟩
    | some rule =>
      have hname : rule.name = key := by simpa using List.find?_some hfind
      have hhead : List.lookup rule.name ((key, j) :: fields) = some j := by
        rw [List.lookup_cons, hname, beq_self_eq_true]
      obtain ⟨record', hrecord⟩ := hread rule (List.mem_of_find?_eq_some hfind) j hhead record
      have hseen' : ∀ k ∈ fields.map Prod.fst, k ∉ key :: seen := by
        intro k hk hmem
        rcases List.mem_cons.1 hmem with rfl | hmem
        · exact hkey hk
        · exact hseen k hk hmem
      obtain ⟨result, hresult⟩ := ih hkeys hread' record' (key :: seen) hseen'
      exact ⟨result, readFields_cons_ok_iff.2
        ⟨key, rfl, Or.inr ⟨rule, hfind, hfresh, record', hrecord, hresult⟩⟩⟩

/-- What is known of a part `view` of the record that only one rule sets, after the entries of an
object were read.  If the object has the key of the rule, then it was read last by that rule; if
not, then it is as before. -/
lemma view_of_readFields (view : ρ → β) (hnodup : (rules.map (·.name)).Nodup)
    {rule : RecordField ρ} (hrule : rule ∈ rules)
    (hframe : ∀ rule' ∈ rules, rule'.name ≠ rule.name → ∀ d record record',
      rule'.read r d record = .ok record' → view record' = view record)
    (hkeys : (fields.map Prod.fst).Nodup) {record record' : ρ} {seen seen' : List String}
    (h : readFields r rules record seen (Draft.ofFields fields) = .ok (record', seen')) :
    (fields.lookup rule.name = none →
      view record' = view record ∧ (rule.name ∈ seen' ↔ rule.name ∈ seen)) ∧
    ∀ j, fields.lookup rule.name = some j → rule.name ∈ seen' ∧ ∃ before after,
      rule.read r (Draft.ofJson j) before = .ok after ∧ view record' = view after := by
  induction fields generalizing record seen with
  | nil =>
    obtain ⟨rfl, rfl⟩ := Prod.mk.inj (Except.ok.inj h)
    exact ⟨fun _ => ⟨rfl, Iff.rfl⟩, fun j hj => nomatch hj⟩
  | cons p fields ih =>
    obtain ⟨key, j₀⟩ := p
    obtain ⟨hkey, hkeys⟩ := List.nodup_cons.1 hkeys
    rw [Draft.ofFields, readFields_cons_ok_iff] at h
    obtain ⟨k, hk, h⟩ := h
    obtain rfl := Except.ok.inj hk
    rcases h with ⟨hnone, -, h⟩ | ⟨rule₀, hfind, -, record₁, hread, h⟩
    · have hne : rule.name ≠ key := by
        intro hname
        have := List.find?_eq_none.1 hnone rule hrule
        simp [hname] at this
      rw [List.lookup_cons, beq_false_of_ne hne]
      exact ih hkeys h
    · have hname : rule₀.name = key := by simpa using List.find?_some hfind
      have hrule₀ := List.mem_of_find?_eq_some hfind
      obtain ⟨hrest, hthere⟩ := ih hkeys h
      by_cases heq : rule.name = key
      · obtain rfl : rule = rule₀ :=
          List.inj_on_of_nodup_map hnodup hrule hrule₀ (heq.trans hname.symm)
        -- the key is not among the later ones, so what was read for it stays
        have hlater : fields.lookup rule.name = none := by
          rw [List.lookup_eq_none_iff]
          intro q hq
          rw [bne_iff_ne, heq]
          intro hsame
          exact hkey (List.mem_map.2 ⟨q, hq, hsame.symm⟩)
        obtain ⟨hview, hseen⟩ := hrest hlater
        have hhead : List.lookup rule.name ((key, j₀) :: fields) = some j₀ := by
          rw [List.lookup_cons, heq, beq_self_eq_true]
        rw [hhead]
        refine ⟨fun hnone => absurd hnone (Option.some_ne_none _), fun j hj => ?_⟩
        obtain rfl := Option.some.inj hj
        exact ⟨hseen.2 (heq ▸ List.mem_cons_self), record, record₁, hread, hview⟩
      · rw [List.lookup_cons, beq_false_of_ne heq]
        refine ⟨fun hnone => ?_, hthere⟩
        obtain ⟨hview, hseen⟩ := hrest hnone
        have hother : rule₀.name ≠ rule.name := fun h => heq (h.symm.trans hname)
        rw [hview, hframe rule₀ hrule₀ hother _ _ _ hread, hseen, List.mem_cons, or_iff_right heq]
        exact ⟨rfl, Iff.rfl⟩

/-- An object is read as a record exactly if its entries are and have all that has to be there. -/
lemma readRecord_obj_iff {label : String} {empty record : ρ} :
    readRecord r label rules empty (Draft.ofJson (.obj fields)) = .ok record ↔
      1 < r.limit ∧ ∃ seen,
        readFields r.inner rules empty [] (Draft.ofFields fields) = .ok (record, seen) ∧
          ∀ rule ∈ rules, rule.presence = .required → rule.name ∈ seen := by
  have hrequired : ∀ seen : List String,
      rules.find? (fun rule => rule.presence == .required && !seen.contains rule.name) = none ↔
        ∀ rule ∈ rules, rule.presence = .required → rule.name ∈ seen := by
    simp [List.find?_eq_none]
  simp only [Draft.ofJson, readRecord, bind_ok_iff, enter_ok_iff, exists_unit_iff, Draft.closed,
    true_and]
  constructor
  · rintro ⟨inner, ⟨hlimit, rfl⟩, ⟨record', seen⟩, hfields, h⟩
    split at h
    · cases h
    case h_2 hnone =>
      obtain rfl := pure_ok_iff.1 h
      exact ⟨hlimit, seen, hfields, (hrequired seen).1 hnone⟩
  · rintro ⟨hlimit, seen, hfields, hall⟩
    refine ⟨r.inner, ⟨hlimit, rfl⟩, (record, seen), hfields, ?_⟩
    rw [(hrequired seen).2 hall]
    rfl

end Entries

end WireContract.Json

namespace WireContract.Wire

open Json Schema Outcome

/-! ## Fields of a record -/

/-- What a field is read as from what an object has under its name. -/
def FieldReads (reg : Registry) (read : ReadInside) (source : Source) (field : Field) :
    Option Json → Value → Prop
  | none, v => presenceOf reg field.type ≠ .required ∧ v = defaultOf reg field.type
  | some j, v =>
    (reg.fieldRule field.type = .emptyDefault ∧ j = .null → v = defaultOf reg field.type) ∧
      (¬ (reg.fieldRule field.type = .emptyDefault ∧ j = .null) →
        read source field.type (Draft.ofJson j) = .ok v)

section Fields

variable {reg : Registry} {read : ReadInside} {r : Reader} {o : Object}

lemma FieldReads.unique {source : Source} {field : Field} {found : Option Json} {v w : Value}
    (hv : FieldReads reg read source field found v)
    (hw : FieldReads reg read source field found w) :
    v = w := by
  cases found with
  | none => rw [hv.2, hw.2]
  | some j =>
    by_cases hnull : reg.fieldRule field.type = .emptyDefault ∧ j = .null
    · rw [hv.1 hnull, hw.1 hnull]
    · exact Except.ok.inj ((hv.2 hnull).symm.trans (hw.2 hnull))

lemma isNull_ofJson_iff {j : Json} : isNull (Draft.ofJson j) = true ↔ j = .null := by
  cases j <;> simp [Draft.ofJson, isNull]

/-- The rule for a field puts the value that is read for it in front of what was found. -/
lemma recordField_ofJson_iff {field : Field} {j : Json} {found found' : List (String × Value)} :
    (recordField reg read field).read r (Draft.ofJson j) found = .ok found' ↔
      ∃ v, FieldReads reg read r.source field (some j) v ∧ found' = (field.name, v) :: found := by
  have htest : (reg.fieldRule field.type == .emptyDefault && isNull (Draft.ofJson j)) = true ↔
      reg.fieldRule field.type = .emptyDefault ∧ j = .null := by
    rw [Bool.and_eq_true, beq_iff_eq, isNull_ofJson_iff]
  simp only [recordField, FieldReads]
  by_cases hnull : reg.fieldRule field.type = .emptyDefault ∧ j = .null
  · rw [if_pos (htest.2 hnull), pure_ok_iff]
    simp only [hnull, and_self, forall_const, not_true_eq_false, false_imp_iff, and_true,
      exists_eq_left]
    exact eq_comm
  · rw [if_neg (mt htest.1 hnull), bind_ok_iff]
    simp only [hnull, false_imp_iff, true_and, not_false_eq_true, forall_const, pure_ok_iff]
    exact exists_congr fun v => and_congr_right fun _ => eq_comm

/-- The rule for a field adds a value for it to what was found. -/
lemma exists_of_recordField {field : Field} {d : Draft} {found found' : List (String × Value)}
    (h : (recordField reg read field).read r d found = .ok found') :
    ∃ v, found' = (field.name, v) :: found := by
  simp only [recordField] at h
  split_ifs at h
  · exact ⟨_, (pure_ok_iff.1 h).symm⟩
  · obtain ⟨v, -, h⟩ := bind_ok_iff.1 h
    exact ⟨v, (pure_ok_iff.1 h).symm⟩

/-- The rule for a key is that of the field with its name. -/
lemma find?_rules (fields : List Field) (key : String) :
    (fields.map (recordField reg read)).find? (·.name == key) =
      (fields.find? (·.name == key)).map (recordField reg read) := by
  rw [List.find?_map]
  rfl

lemma nodup_rules (hnodup : (o.fields.map (·.name)).Nodup) :
    ((o.fields.map (recordField reg read)).map (·.name)).Nodup := by
  rw [List.map_map]
  exact hnodup

/-- What is known of a field after the entries of an object were read. -/
lemma lookup_of_readFields (hnodup : (o.fields.map (·.name)).Nodup)
    {fields : List (String × Json)} (hkeys : (fields.map Prod.fst).Nodup)
    {found : List (String × Value)} {seen : List String}
    (h : readFields r (o.fields.map (recordField reg read)) [] [] (Draft.ofFields fields) =
      .ok (found, seen)) {field : Field} (hfield : field ∈ o.fields) :
    (fields.lookup field.name = none → found.lookup field.name = none ∧ field.name ∉ seen) ∧
    ∀ j, fields.lookup field.name = some j → field.name ∈ seen ∧
      ∃ v, FieldReads reg read r.source field (some j) v ∧ found.lookup field.name = some v := by
  have hframe : ∀ rule ∈ o.fields.map (recordField reg read), rule.name ≠ field.name →
      ∀ d (record record' : List (String × Value)), rule.read r d record = .ok record' →
        record'.lookup field.name = record.lookup field.name := by
    intro rule hrule hne d record record' hread
    obtain ⟨other, -, rfl⟩ := List.mem_map.1 hrule
    obtain ⟨v, rfl⟩ := exists_of_recordField hread
    have hother : (field.name == other.name) = false := beq_false_of_ne (Ne.symm hne)
    rw [List.lookup_cons, hother]
  obtain ⟨hmissing, hthere⟩ := view_of_readFields _ (nodup_rules hnodup)
    (List.mem_map_of_mem hfield) hframe hkeys h
  refine ⟨fun hnone => ?_, fun j hj => ?_⟩
  · obtain ⟨hlookup, hseen⟩ := hmissing hnone
    exact ⟨hlookup, fun hmem => List.not_mem_nil (hseen.1 hmem)⟩
  · obtain ⟨hseen, before, after, hread, hlookup⟩ := hthere j hj
    obtain ⟨v, hv, rfl⟩ := recordField_ofJson_iff.1 hread
    refine ⟨hseen, v, hv, ?_⟩
    rw [hlookup, List.lookup_cons, beq_self_eq_true]

/-- What is put together from the entries of an object are the values that its fields read. -/
lemma forall₂_inOrder (hnodup : (o.fields.map (·.name)).Nodup) {fields : List (String × Json)}
    (hkeys : (fields.map Prod.fst).Nodup) {found : List (String × Value)} {seen : List String}
    (h : readFields r (o.fields.map (recordField reg read)) [] [] (Draft.ofFields fields) =
      .ok (found, seen))
    (hrequired : ∀ rule ∈ o.fields.map (recordField reg read), rule.presence = .required →
      rule.name ∈ seen) :
    List.Forall₂ (fun field v => FieldReads reg read r.source field (fields.lookup field.name) v)
      o.fields (inOrder reg o.fields found) := by
  refine List.forall₂_map_right_iff.2 (List.forall₂_same.2 fun field hfield => ?_)
  obtain ⟨hmissing, hthere⟩ := lookup_of_readFields hnodup hkeys h hfield
  cases hlookup : fields.lookup field.name with
  | none =>
    obtain ⟨hfound, hseen⟩ := hmissing hlookup
    rw [hfound]
    exact ⟨fun hpresence => hseen (hrequired _ (List.mem_map_of_mem hfield) hpresence), rfl⟩
  | some j =>
    obtain ⟨-, v, hv, hfound⟩ := hthere j hlookup
    rw [hfound]
    exact hv

/-- An object is read as a record exactly if each field gets a value from what the object has under
its name. -/
theorem readObject_obj_iff (hnodup : (o.fields.map (·.name)).Nodup) {fields : List (String × Json)}
    (hkeys : (fields.map Prod.fst).Nodup) {x : Value} :
    readObject reg read r o (Draft.ofJson (.obj fields)) = .ok x ↔
      1 < r.limit ∧ ∃ values, x = .record values ∧
        List.Forall₂ (fun field v =>
          FieldReads reg read r.source field (fields.lookup field.name) v) o.fields values := by
  simp only [readObject, bind_ok_iff, pure_ok_iff, readRecord_obj_iff]
  constructor
  · rintro ⟨found, ⟨hlimit, seen, hfields, hrequired⟩, rfl⟩
    exact ⟨hlimit, _, rfl, forall₂_inOrder (r := r.inner) hnodup hkeys hfields hrequired⟩
  · rintro ⟨hlimit, values, rfl, hvalues⟩
    have hread : ∀ field ∈ o.fields, ∃ v,
        FieldReads reg read r.source field (fields.lookup field.name) v := by
      intro field hfield
      obtain ⟨v, -, hv⟩ := exists_of_mem_forall₂ hvalues.flip hfield
      exact ⟨v, hv⟩
    have hrules : ∀ rule ∈ o.fields.map (recordField reg read), ∀ j,
        fields.lookup rule.name = some j → ∀ record,
          ∃ record', rule.read r.inner (Draft.ofJson j) record = .ok record' := by
      intro rule hrule j hj record
      obtain ⟨field, hfield, rfl⟩ := List.mem_map.1 hrule
      obtain ⟨v, hv⟩ := hread field hfield
      exact ⟨_, recordField_ofJson_iff.2 ⟨v, hj ▸ hv, rfl⟩⟩
    obtain ⟨⟨found, seen⟩, hfields⟩ := exists_readFields hkeys hrules [] [] (by simp)
    have hrequired : ∀ rule ∈ o.fields.map (recordField reg read), rule.presence = .required →
        rule.name ∈ seen := by
      intro rule hrule hpresence
      obtain ⟨field, hfield, rfl⟩ := List.mem_map.1 hrule
      cases hj : fields.lookup field.name with
      | none =>
        obtain ⟨v, hv⟩ := hread field hfield
        rw [hj] at hv
        exact absurd hpresence hv.1
      | some j => exact ((lookup_of_readFields hnodup hkeys hfields hfield).2 j hj).1
    have hfound := forall₂_inOrder hnodup hkeys hfields hrequired
    have hvalues' : inOrder reg o.fields found = values :=
      List.right_unique_forall₂' (fun _ _ _ hv hw => hv.unique hw) hfound hvalues
    exact ⟨found, ⟨hlimit, seen, hfields, hrequired⟩, congrArg _ hvalues'⟩

end Fields

/-! ## Limits -/

section Limits

variable {reg : Registry} {read read' : ReadInside} {r r' : Reader}

lemma recordField_transfer (hsource : r.source = r'.source) {field : Field} {d : Draft}
    (hread : ∀ v, read r.source field.type d = .ok v → read' r.source field.type d = .ok v)
    {found found' : List (String × Value)}
    (h : (recordField reg read field).read r d found = .ok found') :
    (recordField reg read' field).read r' d found = .ok found' := by
  simp only [recordField] at h ⊢
  split_ifs at h ⊢ with hnull
  · exact h
  · obtain ⟨v, hv, h⟩ := bind_ok_iff.1 h
    exact bind_ok_iff.2 ⟨v, hsource ▸ hread v hv, h⟩

lemma readFields_transfer (hsource : r.source = r'.source) {fields : List Field}
    {entries : List (Except Fault String × Draft)}
    (hread : ∀ e ∈ entries, ∀ field ∈ fields, ∀ v,
      read r.source field.type e.2 = .ok v → read' r.source field.type e.2 = .ok v)
    {found : List (String × Value)} {seen : List String}
    {result : List (String × Value) × List String}
    (h : readFields r (fields.map (recordField reg read)) found seen entries = .ok result) :
    readFields r' (fields.map (recordField reg read')) found seen entries = .ok result := by
  induction entries generalizing found seen with
  | nil => exact h
  | cons e entries ih =>
    obtain ⟨he, hread⟩ := List.forall_mem_cons.1 hread
    rw [readFields_cons_ok_iff] at h ⊢
    simp only [find?_rules, Option.map_eq_none_iff, Option.map_eq_some_iff] at h ⊢
    obtain ⟨key, hkey,
      ⟨hnone, hskip, h⟩ | ⟨rule, ⟨field, hfind, rfl⟩, hseen, found', hfound, h⟩⟩ := h
    · exact ⟨key, hkey, Or.inl ⟨hnone, hskip, ih hread h⟩⟩
    · have hfield := List.mem_of_find?_eq_some hfind
      exact ⟨key, hkey, Or.inr ⟨_, ⟨field, hfind, rfl⟩, hseen, found',
        recordField_transfer hsource (he field hfield) hfound, ih hread h⟩⟩

lemma readElements_transfer (hsource : r.source = r'.source) {fields : List Field}
    {items : List Draft}
    (hread : ∀ d ∈ items, ∀ field ∈ fields, ∀ v,
      read r.source field.type d = .ok v → read' r.source field.type d = .ok v)
    {expected : String} {stop : Option Stop} {found : List (String × Value)} {index : ℕ}
    {result : List (String × Value) × List Draft}
    (h : readElements r expected stop found index (fields.map (recordField reg read)) items =
      .ok result) :
    readElements r' expected stop found index (fields.map (recordField reg read')) items =
      .ok result := by
  induction fields generalizing items found index with
  | nil => exact h
  | cons field fields ih =>
    cases items with
    | nil =>
      rw [List.map_cons, readElements, check_bind_ok_iff] at h ⊢
      obtain ⟨hstop, h⟩ := h
      refine ⟨hstop, ?_⟩
      split_ifs at h with hdefault
      rw [if_pos (show ((recordField reg read' field).presence == .defaulted) = true from hdefault)]
      exact ih (by simp) h
    | cons d items =>
      rw [List.map_cons, readElements, bind_ok_iff] at h ⊢
      obtain ⟨found', hfound, h⟩ := h
      have hhead := hread d List.mem_cons_self field List.mem_cons_self
      refine ⟨found', recordField_transfer hsource hhead hfound, ih ?_ h⟩
      exact fun d' hd' field' hfield' =>
        hread d' (List.mem_cons_of_mem _ hd') field' (List.mem_cons_of_mem _ hfield')

/-- A record that is read stays the same under another limit and with another way to read what is
inside it, if that reads no less. -/
lemma readObject_transfer (hsource : r.source = r'.source) {o : Object} {j : Json} {x : Value}
    (hdepth : j.depth < r'.limit)
    (hread : ∀ field ∈ o.fields, ∀ j', j'.depth < r'.limit - 1 → ∀ v,
      read r.source field.type (Draft.ofJson j') = .ok v →
        read' r.source field.type (Draft.ofJson j') = .ok v)
    (h : readObject reg read r o (Draft.ofJson j) = .ok x) :
    readObject reg read' r' o (Draft.ofJson j) = .ok x := by
  obtain ⟨found, hfound, h⟩ := bind_ok_iff.1 h
  refine bind_ok_iff.2 ⟨found, ?_, h⟩
  cases j with
  | obj fields =>
    rw [depth_obj_lt_iff] at hdepth
    simp only [Draft.ofJson, readRecord, bind_ok_iff, enter_ok_iff, exists_unit_iff] at hfound ⊢
    obtain ⟨inner, ⟨-, rfl⟩, result, hfields, hclosed, hfound⟩ := hfound
    have hread' : ∀ e ∈ Draft.ofFields fields, ∀ field ∈ o.fields, ∀ v,
        read r.inner.source field.type e.2 = .ok v →
          read' r.inner.source field.type e.2 = .ok v := by
      intro e he field hfield
      rw [ofFields_eq_map] at he
      obtain ⟨p, hp, rfl⟩ := List.mem_map.1 he
      exact hread field hfield p.2 (hdepth.2 p hp)
    have hfields' := readFields_transfer
      (show r.inner.source = r'.inner.source from hsource) hread' hfields
    refine ⟨r'.inner, ⟨hdepth.1, rfl⟩, result, hfields', hclosed, ?_⟩
    split at hfound
    · cases hfound
    case h_2 hnone =>
      -- whether a field has to be there does not depend on how it is read
      have hnone' : (o.fields.map (recordField reg read')).find? (fun rule =>
          rule.presence == .required && !result.2.contains rule.name) = none := by
        rw [List.find?_map, Option.map_eq_none_iff] at hnone ⊢
        exact hnone
      rw [hnone']
      exact hfound
  | arr items =>
    rw [depth_arr_lt_iff] at hdepth
    simp only [Draft.ofJson, readRecord, bind_ok_iff, enter_ok_iff, exists_unit_iff,
      List.length_map] at hfound ⊢
    obtain ⟨inner, ⟨-, rfl⟩, result, hitems, hclosed, hfound⟩ := hfound
    have hread' : ∀ d ∈ Draft.ofItems items, ∀ field ∈ o.fields, ∀ v,
        read r.inner.source field.type d = .ok v → read' r.inner.source field.type d = .ok v := by
      intro d hd field hfield
      rw [ofItems_eq_map] at hd
      obtain ⟨j, hj, rfl⟩ := List.mem_map.1 hd
      exact hread field hfield j (hdepth.2 j hj)
    have hitems' := readElements_transfer
      (show r.inner.source = r'.inner.source from hsource) hread' hitems
    exact ⟨r'.inner, ⟨hdepth.1, rfl⟩, result, hitems', hsource ▸ hclosed, hfound⟩
  | _ => exact absurd hfound unexpected_ne_ok

/-- A value with no optional around it that is read stays the same under another limit. -/
lemma readBase_transfer (hsource : r.source = r'.source) {b : Base} (hplain : b.IsPlain reg)
    (hunion : ∀ u, b ≠ .union u) {j : Json} {x : Value} (hlimit : 0 < r.limit)
    (hdepth : j.depth < r'.limit)
    (hkey : ∀ key value s k, b = .map key value → 1 < r'.limit →
      read r.source key (keyDraft reg key s) = .ok k →
        read' r.source key (keyDraft reg key s) = .ok k)
    (hread : ∀ t ∈ b.parts, ∀ j', j'.depth < r'.limit - 1 → ∀ v,
      read r.source t (Draft.ofJson j') = .ok v → read' r.source t (Draft.ofJson j') = .ok v)
    (h : readBase reg read r (Draft.ofJson j) b = .ok x) :
    readBase reg read' r' (Draft.ofJson j) b = .ok x := by
  cases b with
  | primitive p =>
    cases p with
    | any =>
      obtain ⟨v, hv, rfl⟩ := map_ok_iff.1 h
      obtain ⟨-, rfl⟩ := (Draft.complete_ofJson_iff hlimit).1 hv
      have hwhole := (Draft.complete_ofJson_iff (Nat.zero_lt_of_lt hdepth)).2 ⟨hdepth, rfl⟩
      exact map_ok_iff.2 ⟨_, hwhole, rfl⟩
    | _ => exact h
  | binary => exact h
  | enum e => exact h
  | set item => exact hplain.elim
  | union u => exact absurd rfl (hunion u)
  | list item =>
    obtain ⟨items, hitems, rfl⟩ := map_ok_iff.1 h
    refine map_ok_iff.2 ⟨items, ?_, rfl⟩
    rw [readList_ok_iff] at hitems ⊢
    obtain ⟨ds, hds, -, hitems⟩ := hitems
    cases j with
    | arr js =>
      obtain ⟨hlimit', hjs⟩ := depth_arr_lt_iff.1 hdepth
      rw [Draft.ofJson, ofItems_eq_map, Draft.arr.injEq] at hds
      obtain ⟨rfl, -⟩ := hds
      refine ⟨_, by rw [Draft.ofJson, ofItems_eq_map], hlimit', ?_⟩
      rw [List.forall₂_map_left_iff] at hitems ⊢
      refine ((List.forall₂_and_left _ _).2 ⟨hjs, hitems⟩).imp ?_
      rintro j' v ⟨hj', hv⟩
      exact hsource ▸ hread item List.mem_cons_self j' hj' v hv
    | _ => cases hds
  | map key value =>
    obtain ⟨entries, hentries, h⟩ := bind_ok_iff.1 h
    refine bind_ok_iff.2 ⟨entries, ?_, h⟩
    rw [readEntries_ok_iff] at hentries ⊢
    obtain ⟨ds, hds, -, hentries⟩ := hentries
    cases j with
    | obj fields =>
      obtain ⟨hlimit', hfields⟩ := depth_obj_lt_iff.1 hdepth
      rw [Draft.ofJson, ofFields_eq_map, Draft.obj.injEq] at hds
      obtain ⟨rfl, -⟩ := hds
      refine ⟨_, by rw [Draft.ofJson, ofFields_eq_map], hlimit', ?_⟩
      rw [List.forall₂_map_left_iff] at hentries ⊢
      refine ((List.forall₂_and_left _ _).2 ⟨hfields, hentries⟩).imp ?_
      rintro p e ⟨hp, s, hs, he⟩
      obtain ⟨k, hk, he⟩ := bind_ok_iff.1 he
      obtain ⟨v, hv, he⟩ := bind_ok_iff.1 he
      have hk' := hkey key value s k rfl hlimit' hk
      have hv' := hread value List.mem_cons_self p.2 hp v hv
      rw [hsource] at hk' hv'
      exact ⟨s, hs, bind_ok_iff.2 ⟨k, hk', bind_ok_iff.2 ⟨v, hv', he⟩⟩⟩
    | _ => cases hds
  | object o =>
    refine readObject_transfer hsource hdepth (fun field hfield => ?_) h
    exact hread _ (List.mem_map_of_mem hfield)

/-- A whole value is read alike under all limits above its depth: what is read under some limit is
read under each of them. -/
theorem decodeForm_limit {bases : List Base} (hplain : Plain reg bases)
    (hunions : ∀ u, Base.union u ∉ bases) {n m : ℕ} {source : Source} {f : Form}
    (hb : f.base ∈ bases) {j : Json} (hdepth : j.depth < m) {x : Value}
    (h : decodeForm reg n source f (Draft.ofJson j) = .ok x) :
    decodeForm reg m source f (Draft.ofJson j) = .ok x := by
  induction n generalizing m f j x source with
  | zero => cases h
  | succ n ih =>
    have hpos : 0 < m := Nat.zero_lt_of_lt hdepth
    obtain ⟨k, b⟩ := f
    induction k generalizing x with
    | zero =>
      rw [decodeForm_base n.succ_pos] at h
      rw [decodeForm_base hpos]
      have hunion : ∀ u, b ≠ .union u := fun u hu => hunions u (hu ▸ hb)
      have hsource : (⟨source, n + 1⟩ : Reader).source = (⟨source, m⟩ : Reader).source := rfl
      refine readBase_transfer hsource (hplain.isPlain b hb) hunion n.succ_pos hdepth ?_
        (fun t ht j' hj' v hv => ?_) h
      · rintro key value s k rfl hlimit hk
        have hstring := hplain.isPlain _ hb
        rw [inside_keyDraft_ok_iff hstring] at hk ⊢
        exact ⟨Nat.sub_pos_of_lt hlimit, hk.2⟩
      · obtain ⟨f, hf, hbase⟩ := hplain.exists_form b hb t ht
        simp only [inside, decode, hf] at hv ⊢
        exact ih hbase hj' hv
    | succ k ihk =>
      cases hnull : isNull (Draft.ofJson j) with
      | true =>
        obtain rfl := isNull_ofJson_iff.1 hnull
        rw [Draft.ofJson, decodeForm_null n.succ_pos] at h
        rw [Draft.ofJson, decodeForm_null hpos]
        exact h
      | false =>
        rw [decodeForm_present n.succ_pos hnull] at h
        rw [decodeForm_present hpos hnull]
        obtain ⟨v, hv, rfl⟩ := map_ok_iff.1 h
        exact map_ok_iff.2 ⟨v, ihk hb hv, rfl⟩

end Limits

end WireContract.Wire
