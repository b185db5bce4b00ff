import Mathlib.Data.List.Nodup
import Mathlib.Tactic.Common
import WireContract.Proofs.FittingValues
import WireContract.Proofs.ScalarTexts
import WireContract.Proofs.UpperCase

/-!
# Values read back from what is written for them

Reading what is written for a fitting value gives the value again, with one exception.  A member
that a union does not declare may have any tag, even that of the key under which the tag stands;
what is written for such a member has that key twice, and no value is read from it.
`decodeForm_encode_iff` says both: a result is read exactly if no union inside the value holds such
a member, and then the result is the value.

The steps are said for any way to read what is inside a value, so that the induction is over the
value alone.
-/

namespace WireContract.Wire

open Json Schema Outcome

namespace Value

/-! ## Undeclared members inside a value -/

/-- Some union inside the value holds a member with the tag that it does not declare. -/
inductive HasUnknown (tag : String) : Value → Prop where
  | here (v : Json) : HasUnknown tag (.unknownMember tag v)
  | member {t : String} {v : Value} (h : HasUnknown tag v) : HasUnknown tag (.member t v)
  | present {v : Value} (h : HasUnknown tag v) : HasUnknown tag (.present v)
  | list {items : List Value} {v : Value} (hv : v ∈ items) (h : HasUnknown tag v) :
      HasUnknown tag (.list items)
  | map {entries : List (Value × Value)} {e : Value × Value} (he : e ∈ entries)
      (h : HasUnknown tag e.2) : HasUnknown tag (.map entries)
  | record {values : List Value} {v : Value} (hv : v ∈ values) (h : HasUnknown tag v) :
      HasUnknown tag (.record values)

variable {tag : String}

lemma hasUnknown_list_iff {items : List Value} :
    HasUnknown tag (.list items) ↔ ∃ v ∈ items, HasUnknown tag v :=
  ⟨fun h => by cases h with | list hv h => exact ⟨_, hv, h⟩, fun ⟨_, hv, h⟩ => .list hv h⟩

lemma hasUnknown_map_iff {entries : List (Value × Value)} :
    HasUnknown tag (.map entries) ↔ ∃ e ∈ entries, HasUnknown tag e.2 :=
  ⟨fun h => by cases h with | map he h => exact ⟨_, he, h⟩, fun ⟨_, he, h⟩ => .map he h⟩

lemma hasUnknown_record_iff {values : List Value} :
    HasUnknown tag (.record values) ↔ ∃ v ∈ values, HasUnknown tag v :=
  ⟨fun h => by cases h with | record hv h => exact ⟨_, hv, h⟩, fun ⟨_, hv, h⟩ => .record hv h⟩

lemma hasUnknown_present_iff {v : Value} : HasUnknown tag (.present v) ↔ HasUnknown tag v :=
  ⟨fun h => by cases h; assumption, .present⟩

lemma hasUnknown_member_iff {t : String} {v : Value} :
    HasUnknown tag (.member t v) ↔ HasUnknown tag v :=
  ⟨fun h => by cases h; assumption, .member⟩

lemma hasUnknown_unknownMember_iff {t : String} {v : Json} :
    HasUnknown tag (.unknownMember t v) ↔ t = tag :=
  ⟨fun h => by cases h; rfl, fun h => h ▸ .here v⟩

end Value

/-! ## What is written -/

section Written

variable (reg : Registry)

lemma encodeItems_eq_map (b : Base) (items : List Value) :
    encodeItems reg b items = items.map (encodeBase reg b) := by
  induction items with
  | nil => rfl
  | cons v vs ih => rw [encodeItems, ih, List.map_cons]

lemma encodeEntries_eq_map (b : Base) (entries : List (Value × Value)) :
    encodeEntries reg b entries = entries.map fun e => (keyText e.1, encodeBase reg b e.2) := by
  induction entries with
  | nil => rfl
  | cons e es ih => rw [encodeEntries, ih, List.map_cons]

/-- The fields of a record that are written, with their values. -/
def writtenFields (fields : List Field) (values : List Value) : List (Field × Value) :=
  (fields.zip values).filter fun p => !isOmitted reg p.1.type p.2

lemma encodeFields_eq_map (fields : List Field) (values : List Value) :
    encodeFields reg fields values =
      (writtenFields reg fields values).map fun p => (p.1.name, encode reg p.1.type p.2) := by
  induction fields generalizing values with
  | nil => simp [encodeFields, writtenFields]
  | cons f fs ih =>
    cases values with
    | nil => simp [encodeFields, writtenFields]
    | cons v vs =>
      rw [encodeFields, ih]
      simp only [writtenFields, List.zip_cons_cons, List.filter_cons]
      cases isOmitted reg f.type v <;> rfl

end Written

/-! ## Lists and maps -/

/-- Reading what is written for the value gives the value and nothing else, and fails if a union
inside it holds an undeclared member with the key of the tag for a tag. -/
def ReadsAgain (reg : Registry) (read : ReadInside) (t : TypeRef) (v : Value) : Prop :=
  ∀ source y, read source t (Draft.ofJson (encode reg t v).distinct) = .ok y ↔
    ¬ v.HasUnknown tagKey ∧ y = v

section Containers

variable {reg : Registry} {read : ReadInside} {r : Reader} {y : Value}

lemma distinct_encode_list (item : TypeRef) (items : List Value) :
    (encodeBase reg (.list item) (.list items)).distinct =
      .arr (items.map fun v => (encode reg item v).distinct) := by
  rw [encodeBase, encodeItems_eq_map, distinct, distinctItems_eq_map, List.map_map]
  rfl

lemma readBase_list_iff {item : TypeRef} {items : List Value} (hlimit : 1 < r.limit)
    (h : ∀ v ∈ items, ReadsAgain reg read item v) :
    readBase reg read r (Draft.ofJson (encodeBase reg (.list item) (.list items)).distinct)
        (.list item) = .ok y ↔
      ¬ (Value.list items).HasUnknown tagKey ∧ y = .list items := by
  have hitems : ∀ ys, List.Forall₂ (fun d y => read r.inner.source item d = .ok y)
      (items.map fun v => Draft.ofJson (encode reg item v).distinct) ys ↔
        (∀ v ∈ items, ¬ v.HasUnknown tagKey) ∧ ys = items := by
    intro ys
    rw [forall₂_map_iff fun v hv y => h v hv _ y, List.map_id']
  rw [distinct_encode_list, Draft.ofJson, ofItems_eq_map, List.map_map, readBase, map_ok_iff,
    Value.hasUnknown_list_iff]
  simp only [Function.comp_def, readList_ok_iff, Draft.arr.injEq, and_true, exists_eq_left', hlimit,
    true_and, hitems, not_exists, not_and]
  constructor
  · rintro ⟨ys, ⟨hys, rfl⟩, rfl⟩
    exact ⟨hys, rfl⟩
  · rintro ⟨hys, rfl⟩
    exact ⟨items, ⟨hys, rfl⟩, rfl⟩

lemma KeysSorted.nodup {entries : List (String × Value)} (h : KeysSorted entries) :
    (entries.map (·.1)).Nodup := by
  refine List.pairwise_map.2 (h.imp fun {a b} hlt heq => ?_)
  simp [heq] at hlt

/-- An entry whose key comes after all others goes to the end. -/
lemma insertEntry_textEntries {before : List (String × Value)} {e : String × Value}
    (h : ∀ b ∈ before, compare b.1 e.1 = .lt) :
    Value.insertEntry (.text e.1, e.2) (textEntries before) = textEntries (before ++ [e]) := by
  induction before with
  | nil => rfl
  | cons b before ih =>
    obtain ⟨hb, hbefore⟩ := List.forall_mem_cons.1 h
    have hgt : compare e.1 b.1 = .gt := Std.OrientedCmp.gt_iff_lt.2 hb
    simp only [textEntries, List.map_cons, List.cons_append, Value.insertEntry, Value.compare, hgt]
    exact congrArg _ (ih hbefore)

lemma foldl_insertEntry_textEntries {before entries : List (String × Value)}
    (h : KeysSorted (before ++ entries)) :
    (textEntries entries).foldl (fun sorted e => Value.insertEntry e sorted) (textEntries before) =
      textEntries (before ++ entries) := by
  induction entries generalizing before with
  | nil => rw [List.append_nil]; rfl
  | cons e entries ih =>
    have hbefore : ∀ b ∈ before, compare b.1 e.1 = .lt := fun b hb =>
      (List.pairwise_append.1 h).2.2 b hb e List.mem_cons_self
    have hcons : textEntries (e :: entries) = (.text e.1, e.2) :: textEntries entries := rfl
    rw [hcons, List.foldl_cons, insertEntry_textEntries hbefore, ih (by simpa using h),
      List.append_assoc]
    rfl

lemma distinct_encode_map (key value : TypeRef) {entries : List (String × Value)}
    (hsorted : KeysSorted entries) :
    (encodeBase reg (.map key value) (.map (textEntries entries))).distinct =
      .obj (entries.map fun e => (e.1, (encode reg value e.2).distinct)) := by
  have hkeys : encodeEntries reg (baseOf reg value) (textEntries entries) =
      entries.map fun e => (e.1, encode reg value e.2) := by
    rw [encodeEntries_eq_map, textEntries, List.map_map]
    rfl
  have hnodup : (([] ++ entries.map fun e : String × Value =>
      (e.1, encode reg value e.2)).map Prod.fst).Nodup := by
    rw [List.nil_append, List.map_map]
    exact hsorted.nodup
  rw [encodeBase, hkeys, distinct, distinctFields_eq_of_nodup hnodup, List.nil_append, List.map_map]
  rfl

lemma readBase_map_iff {key value : TypeRef} {entries : List (String × Value)}
    (hsorted : KeysSorted entries) (hlimit : 1 < r.limit)
    (hkey : ∀ s k, read r.inner.source key (keyDraft reg key s) = .ok k ↔ k = .text s)
    (h : ∀ e ∈ entries, ReadsAgain reg read value e.2) :
    readBase reg read r (Draft.ofJson
        (encodeBase reg (.map key value) (.map (textEntries entries))).distinct) (.map key value) =
      .ok y ↔
      ¬ (Value.map (textEntries entries)).HasUnknown tagKey ∧ y = .map (textEntries entries) := by
  have hentries : ∀ xs, List.Forall₂ (fun (p : Except Fault String × Draft) x => ∃ k, p.1 = .ok k ∧
      readEntry reg read key value r.inner k p.2 = .ok x)
      (entries.map fun e => (.ok e.1, Draft.ofJson (encode reg value e.2).distinct)) xs ↔
        (∀ e ∈ entries, ¬ e.2.HasUnknown tagKey) ∧ xs = textEntries entries := by
    intro xs
    refine forall₂_map_iff fun e he x => ?_
    simp only [Except.ok.injEq, exists_eq_left', readEntry, bind_ok_iff, hkey, h e he _ _,
      pure_ok_iff]
    constructor
    · rintro ⟨k, rfl, v, ⟨hv, rfl⟩, rfl⟩
      exact ⟨hv, rfl⟩
    · rintro ⟨hv, rfl⟩
      exact ⟨_, rfl, _, ⟨hv, rfl⟩, rfl⟩
  have hfold := @foldl_insertEntry_textEntries [] entries hsorted
  rw [distinct_encode_map key value hsorted, Draft.ofJson, ofFields_eq_map, List.map_map, readBase,
    bind_ok_iff, Value.hasUnknown_map_iff]
  simp only [Function.comp_def, readEntries_ok_iff, Draft.obj.injEq, and_true, exists_eq_left',
    hlimit, true_and, hentries, pure_ok_iff]
  constructor
  · rintro ⟨found, ⟨hfound, rfl⟩, rfl⟩
    refine ⟨?_, congrArg _ hfold⟩
    rintro ⟨e, he, hunknown⟩
    obtain ⟨e', he', rfl⟩ := List.mem_map.1 he
    exact hfound e' he' hunknown
  · rintro ⟨hfound, rfl⟩
    refine ⟨_, ⟨fun e he hunknown => hfound ?_, rfl⟩, congrArg _ hfold⟩
    exact ⟨_, List.mem_map_of_mem he, hunknown⟩

end Containers

/-! ## Records -/

lemma isNull_ofJson_distinct {j : Json} (h : j ≠ .null) :
    isNull (Draft.ofJson j.distinct) = false := by
  cases j with
  | null => exact absurd rfl h
  | _ => rfl

/-- A key that a list of pairs has once is found with its value. -/
lemma lookup_of_mem {α : Type} {l : List (String × α)} (hnodup : (l.map (·.1)).Nodup) {k : String}
    {a : α} (h : (k, a) ∈ l) : l.lookup k = some a := by
  induction l with
  | nil => cases h
  | cons p l ih =>
    obtain ⟨hp, hnodup⟩ := List.nodup_cons.1 hnodup
    obtain rfl | h := List.mem_cons.1 h
    · simp
    · have hne : k ≠ p.1 := by
        rintro rfl
        exact hp (List.mem_map.2 ⟨_, h, rfl⟩)
      rw [List.lookup_cons, beq_false_of_ne hne]
      exact ih hnodup h

section Records

variable {reg : Registry} {read : ReadInside} {r : Reader} {o : Object} {values : List Value}

lemma find?_recordField (hnodup : (o.fields.map (·.name)).Nodup) {field : Field}
    (h : field ∈ o.fields) :
    (o.fields.map (recordField reg read)).find? (·.name == field.name) =
      some (recordField reg read field) := by
  have hfind : o.fields.find? (·.name == field.name) = some field := by
    cases hf : o.fields.find? (·.name == field.name) with
    | none =>
      have := List.find?_eq_none.1 hf field h
      simp at this
    | some other =>
      have hname : other.name = field.name := by simpa using List.find?_some hf
      rw [List.inj_on_of_nodup_map hnodup (List.mem_of_find?_eq_some hf) h hname]
  rw [List.find?_map]
  change Option.map (recordField reg read) (o.fields.find? (·.name == field.name)) = _
  rw [hfind, Option.map_some]

/-- What is written for a collection is not null. -/
lemma encode_ne_null {t : TypeRef} {v : Value} {f : Form} (hfits : FitsRef reg t v)
    (hform : form? reg t = some f) (hrule : RuleFits reg t f)
    (hempty : reg.fieldRule t = .emptyDefault) : encode reg t v ≠ .null := by
  obtain ⟨n, b⟩ := f
  simp only [RuleFits, hempty] at hrule
  obtain ⟨rfl, hb⟩ := hrule
  intro hnull
  simp only [encode, baseOf, hform] at hnull
  obtain ⟨rfl, -⟩ := (hfits _ hform).eq_any_of_null hnull
  cases hb

/-- What is written for a field is read by its rule. -/
lemma recordField_read_iff {field : Field} {v : Value} {found found' : List (String × Value)}
    (hread : ReadsAgain reg read field.type v)
    (hnull : reg.fieldRule field.type = .emptyDefault → encode reg field.type v ≠ .null) :
    (recordField reg read field).read r (Draft.ofJson (encode reg field.type v).distinct) found =
      .ok found' ↔
      ¬ v.HasUnknown tagKey ∧ found' = (field.name, v) :: found := by
  have hdefault : (reg.fieldRule field.type == .emptyDefault &&
      isNull (Draft.ofJson (encode reg field.type v).distinct)) = false := by
    cases hr : reg.fieldRule field.type == .emptyDefault with
    | false => rfl
    | true => exact isNull_ofJson_distinct (hnull (beq_iff_eq.1 hr))
  simp only [recordField, hdefault, Bool.false_eq_true, if_false, bind_ok_iff, hread _ _,
    pure_ok_iff]
  constructor
  · rintro ⟨y, ⟨hv, rfl⟩, rfl⟩
    exact ⟨hv, rfl⟩
  · rintro ⟨hv, rfl⟩
    exact ⟨v, ⟨hv, rfl⟩, rfl⟩

/-- The entries of an object that fields and their values are written as. -/
def fieldEntries (reg : Registry) (fields : List (Field × Value)) :
    List (Except Fault String × Draft) :=
  fields.map fun p => (.ok p.1.name, Draft.ofJson (encode reg p.1.type p.2).distinct)

lemma readFields_fieldEntries_iff {rules : List (RecordField (List (String × Value)))}
    {written : List (Field × Value)} {found : List (String × Value)} {seen : List String}
    {result : List (String × Value) × List String}
    (hrules : ∀ p ∈ written, rules.find? (·.name == p.1.name) = some (recordField reg read p.1))
    (hread : ∀ p ∈ written, ReadsAgain reg read p.1.type p.2)
    (hnull : ∀ p ∈ written, reg.fieldRule p.1.type = .emptyDefault →
      encode reg p.1.type p.2 ≠ .null)
    (hnodup : (written.map (·.1.name)).Nodup) (hseen : ∀ p ∈ written, p.1.name ∉ seen) :
    readFields r rules found seen (fieldEntries reg written) = .ok result ↔
      (∀ p ∈ written, ¬ p.2.HasUnknown tagKey) ∧
        result = ((written.map fun p => (p.1.name, p.2)).reverse ++ found,
          (written.map (·.1.name)).reverse ++ seen) := by
  induction written generalizing found seen with
  | nil => simp [fieldEntries, readFields, eq_comm]
  | cons p written ih =>
    obtain ⟨hrule, hrules⟩ := List.forall_mem_cons.1 hrules
    obtain ⟨hp, hread⟩ := List.forall_mem_cons.1 hread
    obtain ⟨hpnull, hnull⟩ := List.forall_mem_cons.1 hnull
    obtain ⟨hfresh, hseen⟩ := List.forall_mem_cons.1 hseen
    obtain ⟨hname, hnodup⟩ := List.nodup_cons.1 hnodup
    have hseen' : ∀ q ∈ written, q.1.name ∉ p.1.name :: seen := by
      intro q hq hmem
      obtain heq | hmem := List.mem_cons.1 hmem
      · exact hname (List.mem_map.2 ⟨q, hq, heq⟩)
      · exact hseen q hq hmem
    have hstep : readFields r rules found seen (fieldEntries reg (p :: written)) = .ok result ↔
        ¬ p.2.HasUnknown tagKey ∧
          readFields r rules ((p.1.name, p.2) :: found) (p.1.name :: seen)
            (fieldEntries reg written) = .ok result := by
      rw [fieldEntries, List.map_cons, readFields_cons_ok_iff]
      simp only [Except.ok.injEq, exists_eq_left', hrule, reduceCtorEq, false_and, false_or,
        Option.some.injEq, hfresh, not_false_eq_true, true_and, recordField_read_iff hp hpnull]
      constructor
      · rintro ⟨_, ⟨hv, rfl⟩, h⟩
        exact ⟨hv, h⟩
      · rintro ⟨hv, h⟩
        exact ⟨_, ⟨hv, rfl⟩, h⟩
    rw [hstep, ih hrules hread hnull hnodup hseen', List.forall_mem_cons, and_assoc]
    simp

lemma mem_zip_of_written {p : Field × Value} (h : p ∈ writtenFields reg o.fields values) :
    p ∈ o.fields.zip values :=
  (List.mem_filter.1 h).1

lemma nodup_zip_names (hnodup : (o.fields.map (·.name)).Nodup)
    (hlength : values.length = o.fields.length) :
    ((o.fields.zip values).map (·.1.name)).Nodup := by
  rw [← List.map_fst_zip (Nat.le_of_eq hlength.symm), List.map_map] at hnodup
  exact hnodup

lemma nodup_writtenFields (hnodup : (o.fields.map (·.name)).Nodup)
    (hlength : values.length = o.fields.length) :
    ((writtenFields reg o.fields values).map (·.1.name)).Nodup :=
  (nodup_zip_names hnodup hlength).sublist (List.filter_sublist.map _)

lemma distinct_encode_record (hnodup : (o.fields.map (·.name)).Nodup)
    (hlength : values.length = o.fields.length) :
    (encodeBase reg (.object o) (.record values)).distinct =
      .obj ((writtenFields reg o.fields values).map fun p =>
        (p.1.name, (encode reg p.1.type p.2).distinct)) := by
  have hkeys : (([] ++ (writtenFields reg o.fields values).map fun p : Field × Value =>
      (p.1.name, encode reg p.1.type p.2)).map Prod.fst).Nodup := by
    rw [List.nil_append, List.map_map]
    exact nodup_writtenFields hnodup hlength
  rw [encodeBase, encodeFields_eq_map, distinct, distinctFields_eq_of_nodup hkeys, List.nil_append,
    List.map_map]
  rfl

lemma ofJson_distinct_record (hnodup : (o.fields.map (·.name)).Nodup)
    (hlength : values.length = o.fields.length) :
    Draft.ofJson (encodeBase reg (.object o) (.record values)).distinct =
      .obj (fieldEntries reg (writtenFields reg o.fields values)) none := by
  rw [distinct_encode_record hnodup hlength, Draft.ofJson, ofFields_eq_map, List.map_map]
  rfl

/-- A field that is not written has no value. -/
lemma isOmitted_eq_true_iff {t : TypeRef} {v : Value} :
    isOmitted reg t v = true ↔ v = .absent ∧ reg.fieldRule t = .omitted := by
  cases v <;> simp [isOmitted]

lemma readRecord_written_iff (hplain : (Base.object o).IsPlain reg)
    (hlength : values.length = o.fields.length) (hlimit : 1 < r.limit)
    (hread : ∀ p ∈ writtenFields reg o.fields values, ReadsAgain reg read p.1.type p.2)
    (hnull : ∀ p ∈ writtenFields reg o.fields values, reg.fieldRule p.1.type = .emptyDefault →
      encode reg p.1.type p.2 ≠ .null) {label : String} {found : List (String × Value)} :
    readRecord r label (o.fields.map (recordField reg read)) []
        (Draft.ofJson (encodeBase reg (.object o) (.record values)).distinct) = .ok found ↔
      (∀ p ∈ writtenFields reg o.fields values, ¬ p.2.HasUnknown tagKey) ∧
        found = ((writtenFields reg o.fields values).map fun p => (p.1.name, p.2)).reverse := by
  have hfields : ∀ result, readFields r.inner (o.fields.map (recordField reg read)) [] []
      (fieldEntries reg (writtenFields reg o.fields values)) = .ok result ↔ _ := fun result =>
    readFields_fieldEntries_iff
      (fun p hp => find?_recordField hplain.1 (List.of_mem_zip (mem_zip_of_written hp)).1)
      hread hnull (nodup_writtenFields hplain.1 hlength) (by simp)
  -- a field that has to be there is written
  have hrequired : (o.fields.map (recordField reg read)).find? (fun rule =>
      rule.presence == .required &&
        !((writtenFields reg o.fields values).map (·.1.name)).reverse.contains rule.name) =
      none := by
    rw [List.find?_eq_none]
    intro rule hrule hmissing
    obtain ⟨field, hfield, rfl⟩ := List.mem_map.1 hrule
    rw [← List.map_fst_zip (Nat.le_of_eq hlength.symm)] at hfield
    obtain ⟨p, hp, rfl⟩ := List.mem_map.1 hfield
    simp only [recordField, Bool.and_eq_true, beq_iff_eq, Bool.not_eq_true', List.contains_eq_mem,
      List.mem_reverse, decide_eq_false_iff_not] at hmissing
    refine hmissing.2 (List.mem_map_of_mem (List.mem_filter.2 ⟨hp, ?_⟩))
    rw [Bool.not_eq_true', Bool.eq_false_iff]
    intro homitted
    have hrule := (isOmitted_eq_true_iff.1 homitted).2
    simp [presenceOf, hrule] at hmissing
  rw [ofJson_distinct_record hplain.1 hlength, readRecord]
  simp only [bind_ok_iff, enter_ok_iff, hlimit, true_and, exists_eq_left, hfields, Draft.closed,
    exists_unit_iff]
  constructor
  · rintro ⟨_, ⟨hknown, rfl⟩, h⟩
    simp only [List.append_nil, hrequired, pure_ok_iff] at h
    exact ⟨hknown, h.symm⟩
  · rintro ⟨hknown, rfl⟩
    refine ⟨_, ⟨hknown, rfl⟩, ?_⟩
    simp only [List.append_nil, hrequired, pure_ok_iff]

lemma inOrder_eq {fields : List Field} {found : List (String × Value)}
    (hlength : values.length = fields.length)
    (h : ∀ p ∈ fields.zip values,
      (found.lookup p.1.name).getD (defaultOf reg p.1.type) = p.2) :
    inOrder reg fields found = values := by
  induction fields generalizing values with
  | nil => exact (List.length_eq_zero_iff.1 hlength).symm
  | cons field fields ih =>
    cases values with
    | nil => cases hlength
    | cons v values =>
      rw [List.zip_cons_cons, List.forall_mem_cons] at h
      rw [inOrder, List.map_cons, h.1, ← inOrder, ih (Nat.succ.inj hlength) h.2]

/-- The values of the fields, with those that are not written filled in. -/
lemma inOrder_written (hplain : (Base.object o).IsPlain reg)
    (hforms : ∀ field ∈ o.fields, ∃ f, form? reg field.type = some f)
    (hlength : values.length = o.fields.length) :
    inOrder reg o.fields
      ((writtenFields reg o.fields values).map fun p => (p.1.name, p.2)).reverse = values := by
  have hkeys : (((writtenFields reg o.fields values).map fun p : Field × Value =>
      (p.1.name, p.2)).reverse.map (·.1)).Nodup := by
    rw [List.map_reverse, List.nodup_reverse, List.map_map]
    exact nodup_writtenFields hplain.1 hlength
  refine inOrder_eq hlength fun p hp => ?_
  cases homitted : isOmitted reg p.1.type p.2 with
  | false =>
    have hmem : (p.1.name, p.2) ∈
        ((writtenFields reg o.fields values).map fun p => (p.1.name, p.2)).reverse := by
      rw [List.mem_reverse]
      exact List.mem_map.2 ⟨p, List.mem_filter.2 ⟨hp, by rw [homitted]; rfl⟩, rfl⟩
    rw [lookup_of_mem hkeys hmem, Option.getD_some]
  | true =>
    obtain ⟨habsent, hrule⟩ := isOmitted_eq_true_iff.1 homitted
    have hlookup : ((writtenFields reg o.fields values).map fun p =>
        (p.1.name, p.2)).reverse.lookup p.1.name = none := by
      rw [List.lookup_eq_none_iff]
      intro e he
      obtain ⟨q, hq, rfl⟩ := List.mem_map.1 (List.mem_reverse.1 he)
      obtain ⟨hqzip, hwritten⟩ := List.mem_filter.1 hq
      rw [bne_iff_ne]
      intro hname
      have heq : q = p :=
        List.inj_on_of_nodup_map (nodup_zip_names hplain.1 hlength) hqzip hp hname.symm
      rw [heq, homitted] at hwritten
      cases hwritten
    obtain ⟨⟨n, b⟩, hform⟩ := hforms p.1 (List.of_mem_zip hp).1
    have hfit := hplain.2 p.1 (List.of_mem_zip hp).1 _ hform
    simp only [RuleFits, hrule] at hfit
    rw [hlookup, Option.getD_none, habsent, defaultOf, hform]
    cases n with
    | zero => cases hfit
    | succ n => rfl

lemma readBase_object_iff {y : Value} (hplain : (Base.object o).IsPlain reg)
    (hforms : ∀ field ∈ o.fields, ∃ f, form? reg field.type = some f)
    (hlength : values.length = o.fields.length) (hlimit : 1 < r.limit)
    (hfits : ∀ p ∈ o.fields.zip values, FitsRef reg p.1.type p.2)
    (hread : ∀ p ∈ writtenFields reg o.fields values, ReadsAgain reg read p.1.type p.2) :
    readBase reg read r (Draft.ofJson (encodeBase reg (.object o) (.record values)).distinct)
        (.object o) = .ok y ↔
      ¬ (Value.record values).HasUnknown tagKey ∧ y = .record values := by
  have hnull : ∀ p ∈ writtenFields reg o.fields values,
      reg.fieldRule p.1.type = .emptyDefault → encode reg p.1.type p.2 ≠ .null := by
    intro p hp hempty
    have hzip := mem_zip_of_written hp
    obtain ⟨f, hf⟩ := hforms p.1 (List.of_mem_zip hzip).1
    exact encode_ne_null (hfits p hzip) hf (hplain.2 p.1 (List.of_mem_zip hzip).1 f hf) hempty
  rw [readBase, readObject, bind_ok_iff]
  simp only [readRecord_written_iff hplain hlength hlimit hread hnull, pure_ok_iff]
  have hknown : (∀ p ∈ writtenFields reg o.fields values, ¬ p.2.HasUnknown tagKey) ↔
      ¬ (Value.record values).HasUnknown tagKey := by
    rw [Value.hasUnknown_record_iff]
    constructor
    · rintro hwritten ⟨v, hv, hunknown⟩
      rw [← List.map_snd_zip (Nat.le_of_eq hlength)] at hv
      obtain ⟨p, hp, rfl⟩ := List.mem_map.1 hv
      cases homitted : isOmitted reg p.1.type p.2 with
      | false => exact hwritten p (List.mem_filter.2 ⟨hp, by rw [homitted]; rfl⟩) hunknown
      | true =>
        rw [(isOmitted_eq_true_iff.1 homitted).1] at hunknown
        cases hunknown
    · intro hknown p hp hunknown
      exact hknown ⟨p.2, (List.of_mem_zip (mem_zip_of_written hp)).2, hunknown⟩
  rw [← hknown]
  constructor
  · rintro ⟨_, ⟨hwritten, rfl⟩, rfl⟩
    exact ⟨hwritten, congrArg _ (inOrder_written hplain hforms hlength)⟩
  · rintro ⟨hwritten, rfl⟩
    exact ⟨_, ⟨hwritten, rfl⟩, congrArg _ (inOrder_written hplain hforms hlength)⟩

end Records

/-! ## Unions -/

namespace Tagged

lemma distinct_toJson {tag : String} (htag : tag ≠ tagKey) (j : Json) :
    (toJson ⟨tag, j⟩).distinct = .obj [(tagKey, .str tag), (tag, j.distinct)] := by
  have hnodup : (([] ++ [(tagKey, Json.str tag), (tag, j)]).map Prod.fst).Nodup := by
    simpa using htag.symm
  rw [toJson, distinct, distinctFields_eq_of_nodup hnodup]
  rfl

/-- The key of the tag cannot hold a value too. -/
lemma distinct_toJson_tagKey (j : Json) :
    (toJson ⟨tagKey, j⟩).distinct = .obj [(tagKey, j.distinct)] := by
  simp [toJson, distinct, distinctFields, Json.insert]

lemma read_ofJson_iff {r : Reader} {fields : List (String × Json)} {m : Tagged}
    (hdistinct : (Json.obj fields).distinct = .obj fields)
    (hdepth : (Json.obj fields).depth < r.limit) :
    read r (Draft.ofJson (.obj fields)) = .ok m ↔ ofFields fields = .ok m := by
  rw [read_ok_iff]
  simp only [Draft.complete_ofJson_iff (Nat.zero_lt_of_lt hdepth), hdepth, true_and, hdistinct,
    Json.obj.injEq, exists_eq_left]

lemma ofFields_pair_iff {tag : String} (htag : tag ≠ tagKey) {j : Json} {m : Tagged} :
    ofFields [(tagKey, .str tag), (tag, j)] = .ok m ↔ m = ⟨tag, j⟩ := by
  obtain ⟨t, v⟩ := m
  rw [ofFields_ok_iff]
  simp only [List.lookup_cons, beq_self_eq_true, Option.some.injEq, Json.str.injEq,
    Tagged.mk.injEq]
  constructor
  · rintro ⟨rfl, rfl⟩
    simp [Json.erase, htag]
  · rintro ⟨rfl, rfl⟩
    simp [Json.erase, htag]

end Tagged

section Unions

variable {reg : Registry} {read : ReadInside} {r : Reader} {u : Union} {tag : String} {y : Value}

lemma distinct_encode_member {declared : Member} (v : Value) (htag : tag ≠ tagKey)
    (hfind : u.members.find? (·.tag == tag) = some declared) :
    (encodeBase reg (.union u) (.member tag v)).distinct =
      .obj [(tagKey, .str tag), (tag, (encode reg declared.type v).distinct)] := by
  rw [encodeBase, memberBase, hfind, Tagged.distinct_toJson htag]
  rfl

lemma readBase_member_iff {declared : Member} {v : Value} (htag : tag ≠ tagKey)
    (hfind : u.members.find? (·.tag == tag) = some declared)
    (hdepth : (encodeBase reg (.union u) (.member tag v)).distinct.depth < r.limit)
    (hread : ReadsAgain reg read declared.type v) :
    readBase reg read r (Draft.ofJson (encodeBase reg (.union u) (.member tag v)).distinct)
        (.union u) = .ok y ↔
      ¬ (Value.member tag v).HasUnknown tagKey ∧ y = .member tag v := by
  have hdistinct := distinct_distinct (encodeBase reg (.union u) (.member tag v))
  rw [distinct_encode_member v htag hfind] at hdepth hdistinct ⊢
  rw [readBase, readUnion, bind_ok_iff, Value.hasUnknown_member_iff]
  simp only [Tagged.read_ofJson_iff hdistinct hdepth, Tagged.ofFields_pair_iff htag, exists_eq_left,
    hfind, map_ok_iff, hread _ _]
  constructor
  · rintro ⟨_, ⟨hv, rfl⟩, rfl⟩
    exact ⟨hv, rfl⟩
  · rintro ⟨hv, rfl⟩
    exact ⟨_, ⟨hv, rfl⟩, rfl⟩

lemma readBase_unknownMember_iff {v : Json} (hfind : u.members.find? (·.tag == tag) = none)
    (hv : v.distinct = v) (htag : tag = tagKey → v = .null)
    (hdepth : (encodeBase reg (.union u) (.unknownMember tag v)).distinct.depth < r.limit) :
    readBase reg read r (Draft.ofJson (encodeBase reg (.union u) (.unknownMember tag v)).distinct)
        (.union u) = .ok y ↔
      ¬ (Value.unknownMember tag v).HasUnknown tagKey ∧ y = .unknownMember tag v := by
  have hdistinct := distinct_distinct (encodeBase reg (.union u) (.unknownMember tag v))
  rw [Value.hasUnknown_unknownMember_iff, readBase, readUnion, bind_ok_iff]
  rw [encodeBase] at hdepth hdistinct ⊢
  by_cases hkey : tag = tagKey
  · obtain rfl := htag hkey
    subst hkey
    rw [Tagged.distinct_toJson_tagKey] at hdepth hdistinct ⊢
    refine iff_of_false ?_ (by simp)
    rintro ⟨m, hm, -⟩
    rw [Tagged.read_ofJson_iff hdistinct hdepth] at hm
    cases hm
  · rw [Tagged.distinct_toJson hkey, hv] at hdepth hdistinct ⊢
    simp only [Tagged.read_ofJson_iff hdistinct hdepth, Tagged.ofFields_pair_iff hkey,
      exists_eq_left, hfind, pure_ok_iff, hkey, not_false_eq_true, true_and]
    exact eq_comm

end Unions

/-! ## Values -/

/-- A value of the form of a reference that reads again does so as a value of the reference. -/
lemma readsAgain_inside {reg : Registry} {limit : ℕ} {t : TypeRef} {f : Form} {v : Value}
    (hform : form? reg t = some f) (hdepth : (encode reg t v).distinct.depth < limit)
    (h : (encodeBase reg f.base v).distinct.depth < limit → ∀ source y,
      decodeForm reg limit source f (Draft.ofJson (encodeBase reg f.base v).distinct) = .ok y ↔
        ¬ v.HasUnknown tagKey ∧ y = v) :
    ReadsAgain reg (inside reg limit) t v := by
  intro source y
  simp only [encode, baseOf, hform] at hdepth
  simp only [inside, decode, encode, baseOf, hform]
  exact h hdepth source y

lemma ofEnumText_upper (e : Enum) (s : String) :
    Value.ofEnumText e (Text.upper s) = Value.ofEnumText e s := by
  rw [Value.ofEnumText, Text.upper_upper, Value.ofEnumText]

lemma ok_iff_of_eq {e : Except Fault Value} {x y : Value} (h : e = .ok x)
    (hx : ¬ x.HasUnknown tagKey) : e = .ok y ↔ ¬ x.HasUnknown tagKey ∧ y = x := by
  rw [h, Except.ok.injEq, eq_comm, and_iff_right hx]

lemma intBounds_eq_some_iff {p : Primitive} {least greatest : Int} :
    intBounds p = some (least, greatest) ↔
      (p = .integer ∧ least = -2147483648 ∧ greatest = 2147483647) ∨
        (p = .safelong ∧ least = -9223372036854775808 ∧ greatest = 9223372036854775807) := by
  cases p <;> simp [intBounds, eq_comm]

lemma readPrimitive_encode {reg : Registry} {r : Reader} {p : Primitive} {x : Value}
    (hfits : Fits reg ⟨0, .primitive p⟩ x)
    (hdepth : (encodeBase reg (.primitive p) x).distinct.depth < r.limit) :
    readPrimitive r (Draft.ofJson (encodeBase reg (.primitive p) x).distinct) p = .ok x := by
  cases hfits with
  | text hp s =>
    simp only [encodeBase, distinct, Draft.ofJson]
    cases p <;> first | rfl | cases hp
  | @int _ _ _ n hp hleast hgreatest =>
    simp only [encodeBase, distinct, Draft.ofJson]
    obtain ⟨rfl, rfl, rfl⟩ | ⟨rfl, rfl, rfl⟩ := intBounds_eq_some_iff.1 hp <;>
      simp [readPrimitive, readInt, hleast, hgreatest]
  | double x =>
    simp only [encodeBase, distinct, Draft.ofJson]
    rfl
  | bool b =>
    simp only [encodeBase, distinct, Draft.ofJson]
    rfl
  | instant t =>
    simp only [encodeBase, distinct, Draft.ofJson]
    simp [readPrimitive, readInstant, readGrammar, readString, Instant.parse?_text]
  | uuid u =>
    simp only [encodeBase, distinct, Draft.ofJson]
    simp [readPrimitive, readUuid, readGrammar, readString, Uuid.parse?_text]
  | any hv =>
    rw [encodeBase, hv] at hdepth ⊢
    rw [readPrimitive, map_ok_iff]
    exact ⟨_, (Draft.complete_ofJson_iff (Nat.zero_lt_of_lt hdepth)).2 ⟨hdepth, hv.symm⟩, rfl⟩

/-- No union is inside a primitive value. -/
lemma Fits.not_hasUnknown_primitive {reg : Registry} {p : Primitive} {x : Value} {tag : String}
    (hfits : Fits reg ⟨0, .primitive p⟩ x) : ¬ x.HasUnknown tag := by
  cases hfits <;> rintro ⟨⟩

/-- No union is inside the value of an enumeration. -/
lemma not_hasUnknown_ofEnumText (e : Enum) (s tag : String) :
    ¬ (Value.ofEnumText e s).HasUnknown tag := by
  unfold Value.ofEnumText
  dsimp only
  split <;> rintro ⟨⟩

section Forms

variable {reg : Registry} {limit : ℕ} {source : Source} {x y : Value}

lemma decodeForm_primitive_iff {p : Primitive} (hfits : Fits reg ⟨0, .primitive p⟩ x)
    (hlimit : (encodeBase reg (.primitive p) x).distinct.depth < limit) :
    decodeForm reg limit source ⟨0, .primitive p⟩
        (Draft.ofJson (encodeBase reg (.primitive p) x).distinct) = .ok y ↔
      ¬ x.HasUnknown tagKey ∧ y = x := by
  rw [decodeForm_base (Nat.zero_lt_of_lt hlimit), readBase]
  exact ok_iff_of_eq (readPrimitive_encode hfits hlimit) hfits.not_hasUnknown_primitive

/-- A present value is written as the value inside it, and is read again if that is. -/
lemma decodeForm_present_iff {n : ℕ} {b : Base} (hnull : encodeBase reg b x ≠ .null)
    (hlimit : (encodeBase reg b x).distinct.depth < limit)
    (hx : ∀ y, decodeForm reg limit source ⟨n, b⟩
      (Draft.ofJson (encodeBase reg b x).distinct) = .ok y ↔ ¬ x.HasUnknown tagKey ∧ y = x) :
    decodeForm reg limit source ⟨n + 1, b⟩ (Draft.ofJson (encodeBase reg b x).distinct) = .ok y ↔
      ¬ (Value.present x).HasUnknown tagKey ∧ y = .present x := by
  rw [decodeForm_present (Nat.zero_lt_of_lt hlimit) (isNull_ofJson_distinct hnull), map_ok_iff,
    Value.hasUnknown_present_iff]
  simp only [hx]
  constructor
  · rintro ⟨_, ⟨hknown, rfl⟩, rfl⟩
    exact ⟨hknown, rfl⟩
  · rintro ⟨hknown, rfl⟩
    exact ⟨x, ⟨hknown, rfl⟩, rfl⟩

end Forms

/-- What is written for a fitting value is read exactly if no union inside it holds an undeclared
member with the key of the tag for a tag, and then the value is read. -/
theorem decodeForm_encode_iff {reg : Registry} {bases : List Base} (hplain : Plain reg bases)
    {f : Form} {x : Value} (hfits : Fits reg f x) (hb : f.base ∈ bases) {limit : ℕ}
    (hlimit : (encodeBase reg f.base x).distinct.depth < limit) {source : Source} {y : Value} :
    decodeForm reg limit source f (Draft.ofJson (encodeBase reg f.base x).distinct) = .ok y ↔
      ¬ x.HasUnknown tagKey ∧ y = x := by
  -- The parts of a value are read with a smaller limit and from another kind of source, so both
  -- stay general, and so does the result, which is claimed of every `y`.
  induction hfits generalizing limit source y with
  | text hp s => exact decodeForm_primitive_iff (.text hp s) hlimit
  | int hp hleast hgreatest => exact decodeForm_primitive_iff (.int hp hleast hgreatest) hlimit
  | double x => exact decodeForm_primitive_iff (.double x) hlimit
  | bool b => exact decodeForm_primitive_iff (.bool b) hlimit
  | instant t => exact decodeForm_primitive_iff (.instant t) hlimit
  | uuid u => exact decodeForm_primitive_iff (.uuid u) hlimit
  | any hv => exact decodeForm_primitive_iff (.any hv) hlimit
  | absent n b =>
    refine ok_iff_of_eq ?_ (by rintro ⟨⟩)
    simp only [encodeBase, distinct, Draft.ofJson, decodeForm_null (Nat.zero_lt_of_lt hlimit)]
  | @present n b v hv hnull ih =>
    simp only [encodeBase] at hlimit ⊢
    exact decodeForm_present_iff hnull hlimit fun y => ih hb hlimit
  | bytes bs =>
    refine ok_iff_of_eq ?_ (by rintro ⟨⟩)
    simp [encodeBase, distinct, Draft.ofJson, decodeForm_base (Nat.zero_lt_of_lt hlimit), readBase,
      readBytes, readGrammar, readString, Base64.decode?_encode]
  | enum e s =>
    refine ok_iff_of_eq ?_ (not_hasUnknown_ofEnumText e s tagKey)
    simp only [encodeBase_ofEnumText, distinct, Draft.ofJson,
      decodeForm_base (Nat.zero_lt_of_lt hlimit), readBase, readString]
    exact congrArg Except.ok (ofEnumText_upper e s)
  -- From here on the values have parts.  Each part has a form, whose base is in the set again, and
  -- what is written for it is less deep; so it reads again (`readsAgain_inside`), and one lemma for
  -- each base puts the parts together.
  | @list item items h ih =>
    obtain ⟨f, hf, hbase⟩ := hplain.exists_form _ hb item List.mem_cons_self
    rw [decodeForm_base (Nat.zero_lt_of_lt hlimit)]
    rw [distinct_encode_list, depth_arr_lt_iff] at hlimit
    refine readBase_list_iff hlimit.1 fun v hv => ?_
    refine readsAgain_inside hf (hlimit.2 _ (List.mem_map_of_mem hv)) fun hdepth source y => ?_
    exact ih v hv f hf hbase hdepth
  | @map key value entries hsorted h ih =>
    obtain ⟨f, hf, hbase⟩ := hplain.exists_form _ hb value List.mem_cons_self
    rw [decodeForm_base (Nat.zero_lt_of_lt hlimit)]
    rw [distinct_encode_map key value hsorted, depth_obj_lt_iff] at hlimit
    refine readBase_map_iff hsorted hlimit.1 (fun s k => ?_) fun e he => ?_
    · rw [inside_keyDraft_ok_iff (hplain.isPlain _ hb)]
      exact and_iff_right (by omega)
    · refine readsAgain_inside hf (hlimit.2 _ (List.mem_map_of_mem he)) fun hdepth source y => ?_
      exact ih e he f hf hbase hdepth
  | @record o values hlength h ih =>
    have hforms : ∀ field ∈ o.fields, ∃ f, form? reg field.type = some f ∧ f.base ∈ bases :=
      fun field hfield => hplain.exists_form _ hb _ (List.mem_map_of_mem hfield)
    have hobject : (Base.object o).IsPlain reg := hplain.isPlain _ hb
    rw [decodeForm_base (Nat.zero_lt_of_lt hlimit)]
    rw [distinct_encode_record hobject.1 hlength, depth_obj_lt_iff] at hlimit
    refine readBase_object_iff hobject (fun field hfield => ?_) hlength hlimit.1 h fun p hp => ?_
    · obtain ⟨f, hf, -⟩ := hforms field hfield
      exact ⟨f, hf⟩
    · have hzip := mem_zip_of_written hp
      obtain ⟨f, hf, hbase⟩ := hforms p.1 (List.of_mem_zip hzip).1
      refine readsAgain_inside hf (hlimit.2 _ (List.mem_map_of_mem hp)) fun hdepth source y => ?_
      exact ih p hzip f hf hbase hdepth
  | @member u tag declared v hfind h ih =>
    have hmem := List.mem_of_find?_eq_some hfind
    obtain ⟨f, hf, hbase⟩ := hplain.exists_form _ hb _ (List.mem_map_of_mem hmem)
    have htag : tag ≠ tagKey := by
      have hname : declared.tag = tag := by simpa using List.find?_some hfind
      exact hname ▸ hplain.isPlain _ hb declared hmem
    rw [decodeForm_base (Nat.zero_lt_of_lt hlimit)]
    refine readBase_member_iff htag hfind hlimit ?_
    rw [distinct_encode_member v htag hfind, depth_obj_lt_iff] at hlimit
    refine readsAgain_inside hf (hlimit.2 (tag, _) (by simp)) fun hdepth source y => ?_
    exact ih f hf hbase hdepth
  -- The one case in which something is not read: the tag is the key of the tag.
  | unknownMember hfind hv htag =>
    rw [decodeForm_base (Nat.zero_lt_of_lt hlimit)]
    exact readBase_unknownMember_iff hfind hv htag hlimit

end WireContract.Wire
