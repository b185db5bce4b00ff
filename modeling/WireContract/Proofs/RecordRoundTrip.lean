import WireContract.Proofs.RecordFields
import WireContract.Sample.Canvas

/-!
# Records and their canonical values

A record can be read from many values: a collection that is empty may be missing, null or written
out, and a field without a value may be missing or null.  One of these values is written.  In it, at
every level, collections are there and fields without a value are not (`Canonical`); it is read as
the record again, so reading and writing once more changes nothing.

That the ways to write an empty collection come to the same is a matter of one field
(`fieldReads_empty_iff`), and so is put together from `readObject_obj_iff`: the other fields read
what they read before, under a limit that may differ.
-/

namespace WireContract.Wire

open Json Schema Outcome

/-! ## Values without unions -/

/-- Where there are no unions, no union holds an undeclared member. -/
lemma Fits.not_hasUnknown {reg : Registry} {bases : List Base} (hplain : Plain reg bases)
    (hunions : ∀ u, Base.union u ∉ bases) {f : Form} {x : Value} (hfits : Fits reg f x)
    (hb : f.base ∈ bases) (tag : String) : ¬ x.HasUnknown tag := by
  induction hfits with
  | absent | text | int | double | bool | instant | uuid | any | bytes => rintro ⟨⟩
  | present _ _ ih =>
    rw [Value.hasUnknown_present_iff]
    exact ih hb
  | enum e s => exact not_hasUnknown_ofEnumText e s tag
  | @list item items _ ih =>
    rw [Value.hasUnknown_list_iff]
    rintro ⟨v, hv, hunknown⟩
    obtain ⟨f, hf, hbase⟩ := hplain.exists_form _ hb item List.mem_cons_self
    exact ih v hv f hf hbase hunknown
  | @map key value entries _ _ ih =>
    rw [Value.hasUnknown_map_iff]
    rintro ⟨e, he, hunknown⟩
    obtain ⟨e', he', rfl⟩ := List.mem_map.1 he
    obtain ⟨f, hf, hbase⟩ := hplain.exists_form _ hb value List.mem_cons_self
    exact ih e' he' f hf hbase hunknown
  | @record o values hlength _ ih =>
    rw [Value.hasUnknown_record_iff]
    rintro ⟨v, hv, hunknown⟩
    rw [← List.map_snd_zip (Nat.le_of_eq hlength)] at hv
    obtain ⟨p, hp, rfl⟩ := List.mem_map.1 hv
    obtain ⟨f, hf, hbase⟩ :=
      hplain.exists_form _ hb _ (List.mem_map_of_mem (List.of_mem_zip hp).1)
    exact ih p hp f hf hbase hunknown
  | @member u => exact absurd hb (hunions u)
  | @unknownMember u => exact absurd hb (hunions u)

/-- A value without unions that was read is read again from what is written for it. -/
theorem decodeForm_encode_of_read {reg : Registry} {bases : List Base} (hplain : Plain reg bases)
    (hunions : ∀ u, Base.union u ∉ bases) {f : Form} (hb : f.base ∈ bases) {n : ℕ}
    {source : Source} {d : Draft} {x : Value} (h : decodeForm reg n source f d = .ok x) {m : ℕ}
    (hm : (encodeBase reg f.base x).distinct.depth < m) (source' : Source) :
    decodeForm reg m source' f (Draft.ofJson (encodeBase reg f.base x).distinct) = .ok x := by
  have hfits : Fits reg f x := (fits_of_decodeForm hplain hb h).1
  exact (decodeForm_encode_iff hplain hfits hb hm).2
    ⟨hfits.not_hasUnknown hplain hunions hb tagKey, rfl⟩

/-! ## Canonical values -/

/-- How an empty list, set or map of a reference is written; none if its values are something
else. -/
def emptyOf? (reg : Registry) (t : TypeRef) : Option Json :=
  match form? reg t with
  | some ⟨0, .list _⟩ | some ⟨0, .set _⟩ => some (.arr [])
  | some ⟨0, .map _ _⟩ => some (.obj [])
  | _ => none

/-- The JSON of a value is canonical: in every record at every level, collections are there and not
null, and fields without a value are not there. -/
inductive Canonical (reg : Registry) : Base → Value → Json → Prop where
  | leaf {b : Base} (hb : b.parts = []) (v : Value) (j : Json) : Canonical reg b v j
  | absent (b : Base) : Canonical reg b .absent .null
  | present {b : Base} {v : Value} {j : Json} (h : Canonical reg b v j) :
      Canonical reg b (.present v) j
  | list {item : TypeRef} {items : List Value} {js : List Json}
      (hlength : items.length = js.length)
      (h : ∀ p ∈ items.zip js, Canonical reg (baseOf reg item) p.1 p.2) :
      Canonical reg (.list item) (.list items) (.arr js)
  | map {key value : TypeRef} {entries : List (Value × Value)} {fields : List (String × Json)}
      (hlength : entries.length = fields.length)
      (h : ∀ p ∈ entries.zip fields, Canonical reg (baseOf reg value) p.1.2 p.2.2) :
      Canonical reg (.map key value) (.map entries) (.obj fields)
  | record {o : Object} {values : List Value} {fields : List (String × Json)}
      (hlength : values.length = o.fields.length)
      (hcollection : ∀ field ∈ o.fields, emptyOf? reg field.type ≠ none →
        ∃ j, fields.lookup field.name = some j ∧ j ≠ .null)
      (habsent : ∀ p ∈ o.fields.zip values, p.2 = .absent → fields.lookup p.1.name = none)
      (h : ∀ p ∈ o.fields.zip values, ∀ j, fields.lookup p.1.name = some j →
        Canonical reg (baseOf reg p.1.type) p.2 j) :
      Canonical reg (.object o) (.record values) (.obj fields)

/-- The rules for the fields of a record are those of the forms of their values: collections may be
left out when they are read and optionals when they are written. -/
def Base.FollowsForms (reg : Registry) : Base → Prop
  | .object o => ∀ field ∈ o.fields, ∀ f ∈ form? reg field.type,
      (f.optionals = 0 ∧ f.base.isListOrMap = true → reg.fieldRule field.type = .emptyDefault) ∧
        (0 < f.optionals → reg.fieldRule field.type = .omitted)
  | _ => True

instance (reg : Registry) (b : Base) : Decidable (b.FollowsForms reg) := by
  unfold Base.FollowsForms
  cases b <;> infer_instance

section Canonical

variable {reg : Registry} {o : Object} {values : List Value}

/-- What is written has a field under its name exactly if the field is not left out. -/
lemma lookup_writtenFields {α : Type} (reg : Registry)
    (hnodup : (o.fields.map (·.name)).Nodup) (hlength : values.length = o.fields.length)
    (g : Field × Value → α) {p : Field × Value}
    (hp : p ∈ o.fields.zip values) :
    ((writtenFields reg o.fields values).map fun q => (q.1.name, g q)).lookup p.1.name =
      if isOmitted reg p.1.type p.2 then none else some (g p) := by
  split_ifs with homitted
  · rw [List.lookup_eq_none_iff]
    intro e he
    obtain ⟨q, hq, rfl⟩ := List.mem_map.1 he
    obtain ⟨hqzip, hwritten⟩ := List.mem_filter.1 hq
    rw [bne_iff_ne]
    intro hname
    obtain rfl : q = p :=
      List.inj_on_of_nodup_map (nodup_zip_names hnodup hlength) hqzip hp hname.symm
    simp [homitted] at hwritten
  · refine lookup_of_mem ?_
      (List.mem_map.2 ⟨p, List.mem_filter.2 ⟨hp, by simpa using homitted⟩, rfl⟩)
    rw [List.map_map]
    exact nodup_writtenFields hnodup hlength

/-- A reference whose empty value can be written has lists or maps for values, or sets. -/
lemma isListOrMap_of_emptyOf? {t : TypeRef} {f : Form} (hform : form? reg t = some f)
    (hplain : f.base.IsPlain reg) (h : emptyOf? reg t ≠ none) :
    f.optionals = 0 ∧ f.base.isListOrMap = true := by
  obtain ⟨n, b⟩ := f
  unfold emptyOf? at h
  rw [hform] at h
  cases n with
  | succ n => cases b <;> exact absurd rfl h
  | zero =>
    refine ⟨rfl, ?_⟩
    cases b with
    | list | map => rfl
    | set => exact hplain.elim
    | _ => exact absurd rfl h

/-- Only a value inside an optional can be absent. -/
lemma Fits.optionals_pos {f : Form} {x : Value} (hfits : Fits reg f x) (hx : x = .absent) :
    0 < f.optionals := by
  cases hfits with
  | absent n b => exact Nat.succ_pos n
  | enum e s =>
    unfold Value.ofEnumText at hx
    dsimp only at hx
    split at hx <;> cases hx
  | _ => cases hx

/-- A field with the rule for collections is written, and not as null. -/
lemma exists_lookup_of_emptyDefault (hobject : (Base.object o).IsPlain reg)
    (hlength : values.length = o.fields.length) {p : Field × Value} (hp : p ∈ o.fields.zip values)
    (hfits : FitsRef reg p.1.type p.2) {f : Form} (hf : form? reg p.1.type = some f)
    (hrule : reg.fieldRule p.1.type = .emptyDefault) :
    ∃ j, ((writtenFields reg o.fields values).map fun q =>
        (q.1.name, (encode reg q.1.type q.2).distinct)).lookup p.1.name = some j ∧ j ≠ .null := by
  have homitted : ¬ isOmitted reg p.1.type p.2 = true := by
    intro h
    rw [(isOmitted_eq_true_iff.1 h).2] at hrule
    cases hrule
  have hnull := isNull_ofJson_distinct
    (encode_ne_null hfits hf (hobject.2 _ (List.of_mem_zip hp).1 f hf) hrule)
  rw [lookup_writtenFields reg hobject.1 hlength _ hp, if_neg homitted]
  refine ⟨_, rfl, fun h => ?_⟩
  rw [h] at hnull
  cases hnull

/-- What is written for a fitting value is canonical. -/
theorem Fits.canonical {bases : List Base} (hplain : Plain reg bases)
    (hunions : ∀ u, Base.union u ∉ bases) (hrules : ∀ b ∈ bases, b.FollowsForms reg) {f : Form}
    {x : Value} (hfits : Fits reg f x) (hb : f.base ∈ bases) :
    Canonical reg f.base x (encodeBase reg f.base x).distinct := by
  -- By induction on how the value fits; `Canonical` asks something of records only, and of any
  -- other value that its parts are canonical.
  induction hfits with
  | absent n b =>
    rw [encodeBase]
    exact .absent b
  | present _ _ ih =>
    rw [encodeBase]
    exact .present (ih hb)
  | text | int | double | bool | instant | uuid | any | bytes | enum => exact .leaf rfl _ _
  | @list item items _ ih =>
    obtain ⟨f, hf, hbase⟩ := hplain.exists_form _ hb item List.mem_cons_self
    rw [distinct_encode_list]
    refine .list (by simp) fun p hp => ?_
    nth_rewrite 1 [← List.map_id items] at hp
    rw [List.zip_map'] at hp
    obtain ⟨v, hv, rfl⟩ := List.mem_map.1 hp
    simp only [encode, baseOf, hf]
    exact ih v hv f hf hbase
  | @map key value entries hsorted _ ih =>
    obtain ⟨f, hf, hbase⟩ := hplain.exists_form _ hb value List.mem_cons_self
    rw [distinct_encode_map key value hsorted]
    refine .map (by simp [textEntries]) fun p hp => ?_
    rw [textEntries, List.zip_map'] at hp
    obtain ⟨e, he, rfl⟩ := List.mem_map.1 hp
    simp only [encode, baseOf, hf]
    exact ih e he f hf hbase
  | @record o values hlength hvalues ih =>
    have hobject : (Base.object o).IsPlain reg := hplain.isPlain _ hb
    have hforms : ∀ field ∈ o.fields, ∃ f, form? reg field.type = some f ∧ f.base ∈ bases :=
      fun field hfield => hplain.exists_form _ hb _ (List.mem_map_of_mem hfield)
    rw [distinct_encode_record hobject.1 hlength]
    -- A collection is there by the rule for its field, a field without a value is left out by its
    -- rule, and what is there is the canonical value of the field.
    refine .record hlength (fun field hfield hempty => ?_) (fun p hp habsent => ?_)
      fun p hp j hj => ?_
    · obtain ⟨f, hf, hbase⟩ := hforms field hfield
      have hrule := (hrules _ hb field hfield f hf).1
        (isListOrMap_of_emptyOf? hf (hplain.isPlain _ hbase) hempty)
      rw [← List.map_fst_zip (Nat.le_of_eq hlength.symm)] at hfield
      obtain ⟨p, hp, rfl⟩ := List.mem_map.1 hfield
      exact exists_lookup_of_emptyDefault hobject hlength hp (hvalues p hp) hf hrule
    · obtain ⟨f, hf, -⟩ := hforms p.1 (List.of_mem_zip hp).1
      have hrule := (hrules _ hb _ (List.of_mem_zip hp).1 f hf).2
        ((hvalues p hp f hf).optionals_pos habsent)
      rw [lookup_writtenFields reg hobject.1 hlength _ hp,
        if_pos (isOmitted_eq_true_iff.2 ⟨habsent, hrule⟩)]
    · obtain ⟨f, hf, hbase⟩ := hforms p.1 (List.of_mem_zip hp).1
      rw [lookup_writtenFields reg hobject.1 hlength _ hp] at hj
      split_ifs at hj
      obtain rfl := Option.some.inj hj
      simp only [encode, baseOf, hf]
      exact ih p hp f hf hbase
  | @member u => exact absurd hb (hunions u)
  | @unknownMember u => exact absurd hb (hunions u)

end Canonical

/-! ## Empty collections -/

/-- Nothing, null or the value `empty`: the ways to write an empty collection. -/
def WritesEmpty (empty : Json) (found : Option Json) : Prop :=
  found = none ∨ found = some .null ∨ found = some empty

section Empty

variable {reg : Registry} {source : Source} {field : Field} {empty : Json}

/-- An empty collection that is written out is read as one. -/
lemma inside_empty {t : TypeRef} (hempty : emptyOf? reg t = some empty) {limit : ℕ}
    (hdepth : empty.depth < limit) :
    inside reg limit source t (Draft.ofJson empty) = .ok (defaultOf reg t) := by
  unfold emptyOf? at hempty
  simp only [inside, decode, defaultOf]
  split at hempty
  case h_1 hform | h_2 hform | h_3 hform =>
    obtain rfl := Option.some.inj hempty
    have hlimit : 1 < limit := hdepth
    rw [hform]
    simp only
    rw [decodeForm_base (Nat.zero_lt_of_lt hdepth)]
    simp only [readBase, readList, readEntries, Reader.enter, Draft.ofJson, Draft.ofItems,
      Draft.ofFields, Nat.not_le.2 hlimit, if_false]
    rfl
  · cases hempty

/-- However an empty collection is written, its field is read as empty. -/
lemma fieldReads_empty_iff (hrule : reg.fieldRule field.type = .emptyDefault)
    (hempty : emptyOf? reg field.type = some empty) {found : Option Json}
    (hfound : WritesEmpty empty found) {limit : ℕ} (hdepth : ∀ j, found = some j → j.depth < limit)
    {v : Value} :
    FieldReads reg (inside reg limit) source field found v ↔ v = defaultOf reg field.type := by
  have hnull : empty ≠ .null := by
    rintro rfl
    unfold emptyOf? at hempty
    split at hempty <;> cases hempty
  rcases hfound with rfl | rfl | rfl
  · simp [FieldReads, presenceOf, hrule]
  · simp [FieldReads, hrule]
  · simp only [FieldReads, hnull, and_false, false_imp_iff, not_false_eq_true, forall_const,
      true_and, inside_empty hempty (hdepth _ rfl), Except.ok.injEq]
    exact eq_comm

end Empty

lemma depth_lt_of_lookup {fields : List (String × Json)} {key : String} {j : Json}
    (h : fields.lookup key = some j) : j.depth < (Json.obj fields).depth := by
  obtain ⟨before, after, rfl, -⟩ := List.lookup_eq_some_iff.1 h
  exact (depth_obj_lt_iff.1 (Nat.lt_succ_self _)).2 (key, j) (by simp)

/-- An object is read as a record exactly if its fields are read one by one. -/
lemma readValue_obj_iff {reg : Registry} {t : TypeRef} {o : Object}
    (hform : form? reg t = some ⟨0, .object o⟩) (hnodup : (o.fields.map (·.name)).Nodup)
    {fields : List (String × Json)} (hkeys : (fields.map Prod.fst).Nodup) {x : Value} :
    readValue (decode reg t) (.obj fields) = .ok x ↔
      ∃ values, x = .record values ∧ List.Forall₂ (fun field v =>
        FieldReads reg (inside reg (Json.obj fields).depth) .value field
          (fields.lookup field.name) v) o.fields values := by
  simp only [readValue, decode, hform]
  rw [decodeForm_base (Nat.succ_pos _), readBase, readObject_obj_iff hnodup hkeys]
  have hlimit : 1 < (Json.obj fields).depth + 1 := by
    rw [depth]
    omega
  exact and_iff_right hlimit

/-- Objects that differ only in how they write an empty collection are read as the same record. -/
theorem readValue_of_writesEmpty {reg : Registry} {bases : List Base} (hplain : Plain reg bases)
    (hunions : ∀ u, Base.union u ∉ bases) (hrules : ∀ b ∈ bases, b.FollowsForms reg) {t : TypeRef}
    {o : Object} (hform : form? reg t = some ⟨0, .object o⟩) (hb : Base.object o ∈ bases)
    {fields fields' : List (String × Json)} (hkeys : (fields.map Prod.fst).Nodup)
    (hkeys' : (fields'.map Prod.fst).Nodup) {field : Field} (hfield : field ∈ o.fields)
    {empty : Json} (hempty : emptyOf? reg field.type = some empty)
    (hother : ∀ key, key ≠ field.name → fields'.lookup key = fields.lookup key)
    (hfound : WritesEmpty empty (fields.lookup field.name))
    (hfound' : WritesEmpty empty (fields'.lookup field.name)) {x : Value}
    (h : readValue (decode reg t) (.obj fields) = .ok x) :
    readValue (decode reg t) (.obj fields') = .ok x := by
  have hobject : (Base.object o).IsPlain reg := hplain.isPlain _ hb
  rw [readValue_obj_iff hform hobject.1 hkeys] at h
  obtain ⟨values, rfl, hvalues⟩ := h
  rw [readValue_obj_iff hform hobject.1 hkeys']
  refine ⟨values, rfl, ?_⟩
  refine ((List.forall₂_and_left _ _).2 ⟨fun f hf => hf, hvalues⟩).imp ?_
  rintro f v ⟨hf, hv⟩
  obtain ⟨form, hform', hbase⟩ := hplain.exists_form _ hb _ (List.mem_map_of_mem hf)
  by_cases hname : f.name = field.name
  · obtain rfl : f = field := List.inj_on_of_nodup_map hobject.1 hf hfield hname
    have hrule : reg.fieldRule f.type = .emptyDefault :=
      (hrules _ hb f hf form hform').1
        (isListOrMap_of_emptyOf? hform' (hplain.isPlain _ hbase) (by rw [hempty]; simp))
    rw [fieldReads_empty_iff hrule hempty hfound fun j => depth_lt_of_lookup] at hv
    exact (fieldReads_empty_iff hrule hempty hfound' fun j => depth_lt_of_lookup).2 hv
  · -- the value of another field is the same, only the limit is another
    rw [← hother _ hname] at hv
    cases hj : fields'.lookup f.name with
    | none =>
      rw [hj] at hv
      exact hv
    | some j =>
      rw [hj] at hv
      refine ⟨hv.1, fun hnull => ?_⟩
      have hread := hv.2 hnull
      simp only [inside, decode, hform'] at hread ⊢
      exact decodeForm_limit hplain hunions hbase (depth_lt_of_lookup hj) hread

end WireContract.Wire

/-! ## Circles and trees -/

namespace WireContract.Sample.Canvas

open Json Schema Wire Outcome

/-- The bases of what is inside a circle or a tree. -/
def recordBases : List Base :=
  [.object circle, .object treeNode, .enum color, .list string,
    .list (.declared (shapes "TreeNode")), .map string (.primitive .integer), .binary,
    .primitive .double, .primitive .string, .primitive .integer, .primitive .datetime,
    .primitive .uuid]

lemma plain_recordBases : Plain registry recordBases where
  exists_form := by
    have h : ∀ b ∈ recordBases, ∀ t ∈ b.parts, ∃ f ∈ form? registry t, f.base ∈ recordBases := by
      decide +kernel
    exact h
  isPlain := by decide +kernel

lemma union_notMem_recordBases (u : Union) : Base.union u ∉ recordBases := by
  simp [recordBases]

lemma followsForms_recordBases : ∀ b ∈ recordBases, b.FollowsForms registry := by
  decide +kernel

lemma form?_record {o : Object} (ho : o = circle ∨ o = treeNode) :
    form? registry (.declared o.name) = some ⟨0, .object o⟩ ∧ Base.object o ∈ recordBases := by
  obtain rfl | rfl := ho
  · exact ⟨by decide +kernel, by decide +kernel⟩
  · exact ⟨by decide +kernel, by decide +kernel⟩

/-- A circle or tree that was read from any value is read back from the value written for it, and
the same value is written for it again.  That value is canonical, and a value that writes an empty
collection in another way is read as the same circle or tree. -/
theorem record_reads_back {o : Object} (ho : o = circle ∨ o = treeNode) {v : Json} {x : Value}
    (hx : readValue (decode registry (.declared o.name)) v = .ok x) :
    (∃ x', readValue (decode registry (.declared o.name))
        (encode registry (.declared o.name) x).distinct = .ok x' ∧ x' = x ∧
      (encode registry (.declared o.name) x').distinct =
        (encode registry (.declared o.name) x).distinct) ∧
    Canonical registry (.object o) x (encode registry (.declared o.name) x).distinct ∧
    ∀ fields, v = .obj fields → (fields.map Prod.fst).Nodup →
      ∀ field ∈ o.fields, ∀ empty, emptyOf? registry field.type = some empty →
        WritesEmpty empty (fields.lookup field.name) →
          ∀ fields', (fields'.map Prod.fst).Nodup →
            (∀ key, key ≠ field.name → fields'.lookup key = fields.lookup key) →
              WritesEmpty empty (fields'.lookup field.name) →
                readValue (decode registry (.declared o.name)) (.obj fields') = .ok x := by
  obtain ⟨hform, hb⟩ := form?_record ho
  refine ⟨⟨x, ?_, rfl, rfl⟩, ?_, ?_⟩
  · simp only [readValue, decode, encode, baseOf, hform] at hx ⊢
    exact decodeForm_encode_of_read plain_recordBases union_notMem_recordBases hb hx
      (Nat.lt_succ_self _) _
  · simp only [readValue, decode, hform] at hx
    simp only [encode, baseOf, hform]
    exact (fits_of_decodeForm plain_recordBases hb hx).1.canonical plain_recordBases
      union_notMem_recordBases followsForms_recordBases hb
  · rintro fields rfl hkeys field hfield empty hempty hfound fields' hkeys' hother hfound'
    exact readValue_of_writesEmpty plain_recordBases union_notMem_recordBases
      followsForms_recordBases hform hb hkeys hkeys' hfield hempty hother hfound hfound' hx

example : (circle.fields ++ treeNode.fields).filterMap (fun field =>
    (emptyOf? registry field.type).map fun _ => field.name) =
      ["tags", "labels", "children", "tags"] := by
  decide +kernel

/-- A tree whose only child has a parent of its own.  Its empty collections are null, written out or
missing. -/
def sapling : Json :=
  .obj [("tags", .null), ("value", .num (.int 1)),
    ("children", .arr [.obj [("value", .num (.int 2)), ("children", .arr []),
      ("parent", .obj [("value", .num (.int 3)), ("parent", .null)])]])]

/-- What is read from it. -/
def saplingNode : Value :=
  .record [.int 1,
    .list [.record [.int 2, .list [],
      .present (.record [.int 3, .list [], .absent, .list []]), .list []]],
    .absent, .list []]

theorem record_reads_back_sapling :
    readValue (decode registry (.declared treeNode.name)) sapling = .ok saplingNode ∧
      readValue (decode registry (.declared treeNode.name))
        (encode registry (.declared treeNode.name) saplingNode).distinct = .ok saplingNode ∧
      Canonical registry (.object treeNode) saplingNode
        (encode registry (.declared treeNode.name) saplingNode).distinct ∧
      ∀ fields, sapling = .obj (("tags", .null) :: fields) →
        readValue (decode registry (.declared treeNode.name)) (.obj fields) = .ok saplingNode := by
  have hread : readValue (decode registry (.declared treeNode.name)) sapling = .ok saplingNode :=
    rfl
  obtain ⟨⟨x, hx, rfl, -⟩, hcanonical, hempty⟩ := record_reads_back (Or.inr rfl) hread
  refine ⟨hread, hx, hcanonical, fun fields hfields => ?_⟩
  obtain rfl := List.tail_eq_of_cons_eq (Json.obj.inj hfields)
  refine hempty _ rfl (by decide) (plainField "tags" (.declared (common "Tags"))) (by decide)
    (.arr []) rfl (Or.inr (Or.inl rfl)) _ (by decide) ?_ (Or.inl rfl)
  intro key hkey
  have htags : (key == "tags") = false := beq_false_of_ne hkey
  symm
  rw [List.lookup_cons, htags]

end WireContract.Sample.Canvas
