import WireContract.Proofs.RecordKeys
import WireContract.Schema.Outline

/-!
# Written outlines

An outline has a written form: each record as an object of its fields, each alternative as an object
with its tag and its content, and what may be left out left out if there is none.  Reading gives
back every outline from its written form (`ofJson_toJson`), whatever its words are.

The readers go down with a limit on nesting, and types with fuel besides.  Both are the depth of the
whole value and a little more, so that the induction carries the depth of what is still to be read.
-/

namespace WireContract.Schema.Outline

open Json Outcome

/-! ## Records of the outline -/

section Independent

attribute [local simp] RecordField.commutes_setting

lemma independent_nameRules : Independent nameRules :=
  ⟨by simp [nameRules, RecordField.setting], by simp [nameRules]⟩

variable (readItem : Reader → Draft → Except Fault TypeExpr) (fuel : ℕ)

lemma independent_mapRules : Independent (mapRules readItem) :=
  ⟨by simp [mapRules, RecordField.setting], by simp [mapRules]⟩

lemma independent_externalRules : Independent (externalRules readItem) :=
  ⟨by simp [externalRules, RecordField.setting], by simp [externalRules]⟩

lemma independent_fieldRules : Independent (fieldRules fuel) :=
  ⟨by simp [fieldRules, docsField, RecordField.setting], by simp [fieldRules, docsField]⟩

lemma independent_aliasRules : Independent (aliasRules fuel) :=
  ⟨by simp [aliasRules, docsField, RecordField.setting], by simp [aliasRules, docsField]⟩

lemma independent_enumValueRules : Independent enumValueRules :=
  ⟨by simp [enumValueRules, docsField, RecordField.setting], by simp [enumValueRules, docsField]⟩

lemma independent_enumRules : Independent enumRules :=
  ⟨by simp [enumRules, docsField, RecordField.setting], by simp [enumRules, docsField]⟩

lemma independent_fieldsRules {key : String} (hname : key ≠ "typeName") (hdocs : key ≠ "docs") :
    Independent (fieldsRules fuel key) :=
  ⟨by simp [fieldsRules, docsField, RecordField.setting, hname.symm, hdocs],
    by simp [fieldsRules, docsField]⟩

lemma independent_errorRules : Independent (errorRules fuel) :=
  ⟨by simp [errorRules, docsField, RecordField.setting], by simp [errorRules, docsField]⟩

lemma independent_documentRules : Independent (documentRules fuel) :=
  ⟨by simp [documentRules, RecordField.setting], by simp [documentRules]⟩

end Independent

/-! ## The written form -/

/-- The entry of a text that may be left out. -/
def optionalText (key : String) (s : Option String) : List (String × Json) :=
  s.toList.map fun s => (key, .str s)

@[simp] lemma optionalText_none (key : String) : optionalText key none = [] := rfl

@[simp] lemma optionalText_some (key s : String) :
    optionalText key (some s) = [(key, .str s)] := rfl

/-- A qualified name as it is written. -/
def nameJson (q : QualifiedName) : Json := .obj [("name", .str q.name), ("package", .str q.module)]

/-- An alternative as it is written: its tag, and its content under the same word. -/
def tagged (tag : String) (content : Json) : Json := .obj [("type", .str tag), (tag, content)]

/-- A type as it is written. -/
def TypeExpr.toJson : TypeExpr → Json
  | .primitive word => tagged "primitive" (.str word)
  | .optional item => tagged "optional" (.obj [("itemType", item.toJson)])
  | .list item => tagged "list" (.obj [("itemType", item.toJson)])
  | .set item => tagged "set" (.obj [("itemType", item.toJson)])
  | .map key value => tagged "map" (.obj [("keyType", key.toJson), ("valueType", value.toJson)])
  | .reference name => tagged "reference" (nameJson name)
  | .external name fallback =>
    tagged "external" (.obj [("externalReference", nameJson name), ("fallback", fallback.toJson)])

/-- A field, member or argument as it is written. -/
def Field.toJson (f : Field) : Json :=
  .obj ([("fieldName", .str f.name), ("type", f.type.toJson)] ++ optionalText "docs" f.docs ++
    optionalText "safety" f.safety)

/-- A value of an enumeration as it is written. -/
def enumValueJson (v : EnumValue) : Json :=
  .obj ([("value", .str v.value)] ++ optionalText "docs" v.docs)

/-- An alias as it is written. -/
def Alias.toJson (a : Alias) : Json :=
  .obj ([("typeName", nameJson a.name), ("alias", a.target.toJson)] ++ optionalText "docs" a.docs)

/-- An enumeration as it is written. -/
def Enum.toJson (e : Enum) : Json :=
  .obj ([("typeName", nameJson e.name), ("values", .arr (e.values.map enumValueJson))] ++
    optionalText "docs" e.docs)

/-- An object or union as it is written, its fields under `key`. -/
def Fields.toJson (key : String) (o : Fields) : Json :=
  .obj ([("typeName", nameJson o.name), (key, .arr (o.fields.map Field.toJson))] ++
    optionalText "docs" o.docs)

/-- A declaration of a type as it is written. -/
def TypeDecl.toJson : TypeDecl → Json
  | .alias d => tagged "alias" d.toJson
  | .enum d => tagged "enum" d.toJson
  | .object d => tagged "object" (d.toJson "fields")
  | .union d => tagged "union" (d.toJson "union")

/-- An error as it is written. -/
def ErrorDecl.toJson (e : ErrorDecl) : Json :=
  .obj ([("errorName", nameJson e.name), ("namespace", .str e.namespaceName), ("code", .str e.code),
    ("safeArgs", .arr (e.safeArgs.map Field.toJson)),
    ("unsafeArgs", .arr (e.sensitiveArgs.map Field.toJson))] ++ optionalText "docs" e.docs)

/-- A document of a version as it is written: types, then errors. -/
def Document.toJson (version : ℕ) (d : Document) : Json :=
  .obj [("version", .num (.int version)), ("types", .arr (d.types.map TypeDecl.toJson)),
    ("errors", .arr (d.errors.map ErrorDecl.toJson))]

/-! ## Reading it back -/

/-- The value nests less deep than the reader allows and than there is fuel. -/
structure Fits (fuel : ℕ) (r : Reader) (j : Json) : Prop where
  limit : j.depth < r.limit
  fuel : j.depth < fuel

namespace Fits

variable {fuel : ℕ} {r : Reader} {items : List Json} {fields : List (String × Json)}

lemma mono {fuel' : ℕ} {j : Json} (h : Fits fuel r j) (hle : fuel ≤ fuel') : Fits fuel' r j :=
  ⟨h.limit, lt_of_lt_of_le h.fuel hle⟩

lemma one_lt_of_obj (h : Fits fuel r (.obj fields)) : 1 < r.limit := (depth_obj_lt_iff.1 h.limit).1

lemma one_lt_of_arr (h : Fits fuel r (.arr items)) : 1 < r.limit := (depth_arr_lt_iff.1 h.limit).1

/-- What is inside an object is read with one step less. -/
lemma entry (h : Fits (fuel + 1) r (.obj fields)) {p : String × Json} (hp : p ∈ fields) :
    Fits fuel r.inner p.2 :=
  ⟨(depth_obj_lt_iff.1 h.limit).2 p hp, (depth_obj_lt_iff.1 h.fuel).2 p hp⟩

lemma item (h : Fits (fuel + 1) r (.arr items)) {j : Json} (hj : j ∈ items) : Fits fuel r.inner j :=
  ⟨(depth_arr_lt_iff.1 h.limit).2 j hj, (depth_arr_lt_iff.1 h.fuel).2 j hj⟩

lemma setAside {j : Json} (h : Fits fuel r j) : Fits fuel r.setAside j := ⟨h.limit, h.fuel⟩

/-- What stands under a key that is read is read with one step less. -/
lemma content {key : String} {j : Json} (h : Fits (fuel + 1) r (.obj [(key, j)])) :
    Fits fuel r.inner j :=
  h.entry (p := (key, j)) List.mem_cons_self

end Fits

lemma Fits.of_tagged {fuel : ℕ} {r : Reader} {tag : String} {content : Json}
    (h : Fits fuel r (tagged tag content)) : Fits fuel r.setAside (.obj [(tag, content)]) := by
  have hdepth : (Json.obj [(tag, content)]).depth ≤ (tagged tag content).depth := by
    simp [tagged, depth, depthFields]
  exact ⟨lt_of_le_of_lt hdepth h.limit, lt_of_le_of_lt hdepth h.fuel⟩

section ReadBack

variable {α : Type} {r : Reader} {fuel : ℕ}

@[simp] lemma text_str (s : String) : text (Draft.ofJson (.str s)) = .ok s := rfl

@[simp] lemma readOption_text_str (s : String) :
    readOption text (Draft.ofJson (.str s)) = .ok (some s) := rfl

lemma find?_hasKey (key : String) (fields : List (String × Json)) :
    (Draft.ofFields fields).find? (hasKey key) =
      (fields.lookup key).map fun j => (.ok key, Draft.ofJson j) := by
  induction fields with
  | nil => rfl
  | cons p fields ih =>
    obtain ⟨k, j⟩ := p
    by_cases hk : k = key
    · subst hk
      simp [Draft.ofFields, hasKey]
    · have hne : (key == k) = false := beq_false_of_ne (Ne.symm hk)
      simpa [Draft.ofFields, hasKey, hk, List.lookup_cons, hne] using ih

lemma filter_hasKey (key : String) (fields : List (String × Json)) :
    ((Draft.ofFields fields).filter fun entry => !hasKey key entry) =
      Draft.ofFields (erase fields key) := by
  rw [ofFields_eq_map, ofFields_eq_map, List.filter_map, erase]
  rfl

/-- An object is read as the alternative that its tag names, without the tag. -/
lemma readTagged_obj_ok_iff {label key : String}
    {variants : List (String × (Reader → Draft → Except Fault α))} {fields : List (String × Json)}
    {x : α} :
    readTagged r label key variants (Draft.ofJson (.obj fields)) = .ok x ↔
      ∃ tag, fields.lookup key = some tag ∧
        ∃ read, readVariant r.source variants (Draft.ofJson tag) = .ok read ∧
          read r.setAside (Draft.ofJson (.obj (erase fields key))) = .ok x := by
  rw [Draft.ofJson, readTagged, find?_hasKey, filter_hasKey]
  cases fields.lookup key with
  | none => simp
  | some tag => simp [Draft.ofJson]

/-- A written alternative is read as its content by the reader of its tag. -/
lemma readTagged_tagged {label tag : String} (htag : tag ≠ "type")
    {variants : List (String × (Reader → Draft → Except Fault α))}
    {read : Reader → Draft → Except Fault α} (hread : variants.lookup tag = some read)
    {content : Json} {x : α}
    (h : read r.setAside (Draft.ofJson (.obj [(tag, content)])) = .ok x) :
    readTagged r label "type" variants (Draft.ofJson (tagged tag content)) = .ok x := by
  have hvariant : readVariant r.source variants (Draft.ofJson (.str tag)) = .ok read := by
    simp [Draft.ofJson, readVariant, hread]
  refine readTagged_obj_ok_iff.2 ⟨_, List.lookup_cons_self, read, hvariant, ?_⟩
  simpa [erase, htag] using h

lemma readOnly_obj [Inhabited α] {label key : String} {read : Reader → Draft → Except Fault α}
    {j : Json} {x : α} (hlimit : 1 < r.limit) (h : read r.inner (Draft.ofJson j) = .ok x) :
    readOnly label key read r (Draft.ofJson (.obj [(key, j)])) = .ok x := by
  rw [readOnly, readRecord_obj_keys_iff (independent_singleton _) (by simp)]
  simp [ReadsKeys, RecordField.setting, hlimit, h]

lemma readList_map {read : Reader → Draft → Except Fault α} {write : α → Json} {l : List α}
    (hlimit : 1 < r.limit) (h : ∀ a ∈ l, read r.inner (Draft.ofJson (write a)) = .ok a) :
    readList r read (Draft.ofJson (.arr (l.map write))) = .ok l := by
  refine readList_ok_iff.2 ⟨_, rfl, hlimit, ?_⟩
  rw [ofItems_eq_map, List.map_map, List.forall₂_map_left_iff, List.forall₂_same]
  exact h

lemma readName_nameJson {q : QualifiedName} (hlimit : 1 < r.limit) :
    readName r (Draft.ofJson (nameJson q)) = .ok q := by
  rw [readName, nameJson, readRecord_obj_keys_iff independent_nameRules (by simp)]
  simp [nameRules, ReadsKeys, RecordField.setting, hlimit, List.lookup_cons]

lemma itemVariant_ok {variantName key : String} {wrap : TypeExpr → TypeExpr}
    {inner : Reader → Draft → Except Fault TypeExpr} {item : TypeExpr}
    (h : Fits (fuel + 1) r (.obj [(key, .obj [("itemType", item.toJson)])]))
    (hitem : ∀ r, Fits fuel r item.toJson → inner r (Draft.ofJson item.toJson) = .ok item) :
    (itemVariant variantName key wrap inner).2 r
      (Draft.ofJson (.obj [(key, .obj [("itemType", item.toJson)])])) = .ok (wrap item) := by
  have hcontent := h.content
  have hread := hitem _ (hcontent.mono (Nat.le_succ fuel)).content
  exact map_ok_iff.2
    ⟨item, readOnly_obj h.one_lt_of_obj (readOnly_obj hcontent.one_lt_of_obj hread), rfl⟩

/-- Every type is read back from its written form. -/
theorem readTypeWithin_toJson {t : TypeExpr} (h : Fits fuel r t.toJson) :
    readTypeWithin fuel r (Draft.ofJson t.toJson) = .ok t := by
  induction t generalizing fuel r with
  | primitive word =>
    obtain _ | fuel := fuel
    · exact absurd h.fuel (Nat.not_lt_zero _)
    rw [TypeExpr.toJson, readTypeWithin]
    refine readTagged_tagged (by decide) rfl ?_
    exact map_ok_iff.2 ⟨word, readOnly_obj h.of_tagged.one_lt_of_obj (text_str word), rfl⟩
  | optional item ih | list item ih | set item ih =>
    obtain _ | fuel := fuel
    · exact absurd h.fuel (Nat.not_lt_zero _)
    rw [TypeExpr.toJson, readTypeWithin]
    refine readTagged_tagged (by decide) rfl ?_
    exact itemVariant_ok h.of_tagged fun r hr => ih hr
  | map key value ihk ihv =>
    obtain _ | fuel := fuel
    · exact absurd h.fuel (Nat.not_lt_zero _)
    have hcontent := h.of_tagged.content
    have hinside := hcontent.mono (Nat.le_succ fuel)
    have hkey := ihk (hinside.entry (p := ("keyType", key.toJson)) (by simp))
    have hvalue := ihv (hinside.entry (p := ("valueType", value.toJson)) (by simp))
    have hmap : readMap (readTypeWithin fuel) r.setAside.inner (Draft.ofJson
        (.obj [("keyType", key.toJson), ("valueType", value.toJson)])) = .ok (key, value) := by
      rw [readMap, readRecord_obj_keys_iff (independent_mapRules _) (by simp)]
      simp [mapRules, ReadsKeys, RecordField.setting, hcontent.one_lt_of_obj, List.lookup_cons,
        hkey, hvalue]
    rw [TypeExpr.toJson, readTypeWithin]
    refine readTagged_tagged (by decide) rfl ?_
    exact map_ok_iff.2 ⟨_, readOnly_obj h.of_tagged.one_lt_of_obj hmap, rfl⟩
  | reference name =>
    obtain _ | fuel := fuel
    · exact absurd h.fuel (Nat.not_lt_zero _)
    have hname := readName_nameJson (q := name) h.of_tagged.content.one_lt_of_obj
    rw [TypeExpr.toJson, readTypeWithin]
    refine readTagged_tagged (by decide) rfl ?_
    exact map_ok_iff.2 ⟨_, readOnly_obj h.of_tagged.one_lt_of_obj hname, rfl⟩
  | external name fallback ih =>
    obtain _ | fuel := fuel
    · exact absurd h.fuel (Nat.not_lt_zero _)
    have hcontent := h.of_tagged.content
    have hinside := hcontent.mono (Nat.le_succ fuel)
    have hname := hinside.entry (p := ("externalReference", nameJson name)) (by simp)
    have hfallback := ih (hinside.entry (p := ("fallback", fallback.toJson)) (by simp))
    have hexternal : readExternal (readTypeWithin fuel) r.setAside.inner (Draft.ofJson
        (.obj [("externalReference", nameJson name), ("fallback", fallback.toJson)])) =
          .ok (name, fallback) := by
      rw [readExternal, readRecord_obj_keys_iff (independent_externalRules _) (by simp)]
      simp [externalRules, ReadsKeys, RecordField.setting, hcontent.one_lt_of_obj, List.lookup_cons,
        readName_nameJson hname.one_lt_of_obj, hfallback]
    rw [TypeExpr.toJson, readTypeWithin]
    refine readTagged_tagged (by decide) rfl ?_
    exact map_ok_iff.2 ⟨_, readOnly_obj h.of_tagged.one_lt_of_obj hexternal, rfl⟩

/-! ### Declarations -/

lemma readField_toJson {f : Field} (h : Fits fuel r f.toJson) :
    readField fuel r (Draft.ofJson f.toJson) = .ok f := by
  obtain ⟨name, type, docs, safety⟩ := f
  have hinside := h.mono (Nat.le_succ fuel)
  have htype := readTypeWithin_toJson (hinside.entry (p := ("type", type.toJson)) (by simp))
  rw [readField, Field.toJson, readRecord_obj_keys_iff (independent_fieldRules fuel)
    (by cases docs <;> cases safety <;> simp)]
  cases docs <;> cases safety <;>
    simp [fieldRules, docsField, ReadsKeys, RecordField.setting, h.one_lt_of_obj, List.lookup_cons,
      htype]

lemma readFields_toJson {l : List Field} (h : Fits (fuel + 1) r (.arr (l.map Field.toJson))) :
    readList r (readField fuel) (Draft.ofJson (.arr (l.map Field.toJson))) = .ok l :=
  readList_map h.one_lt_of_arr fun _ hf => readField_toJson (h.item (List.mem_map_of_mem hf))

lemma readAlias_toJson {a : Alias} (h : Fits fuel r a.toJson) :
    readAlias fuel r (Draft.ofJson a.toJson) = .ok a := by
  obtain ⟨name, target, docs⟩ := a
  have hinside := h.mono (Nat.le_succ fuel)
  have hname := hinside.entry (p := ("typeName", nameJson name)) (by simp)
  have htarget := readTypeWithin_toJson (hinside.entry (p := ("alias", target.toJson)) (by simp))
  rw [readAlias, Alias.toJson, readRecord_obj_keys_iff (independent_aliasRules fuel)
    (by cases docs <;> simp)]
  cases docs <;>
    simp [aliasRules, docsField, ReadsKeys, RecordField.setting, h.one_lt_of_obj, List.lookup_cons,
      readName_nameJson hname.one_lt_of_obj, htarget]

lemma readEnumValue_enumValueJson {v : EnumValue} (hlimit : 1 < r.limit) :
    readEnumValue r (Draft.ofJson (enumValueJson v)) = .ok v := by
  obtain ⟨value, docs⟩ := v
  rw [readEnumValue, enumValueJson, readRecord_obj_keys_iff independent_enumValueRules
    (by cases docs <;> simp)]
  cases docs <;>
    simp [enumValueRules, docsField, ReadsKeys, RecordField.setting, hlimit, List.lookup_cons]

lemma readEnum_toJson {e : Enum} (h : Fits fuel r e.toJson) :
    readEnum r (Draft.ofJson e.toJson) = .ok e := by
  obtain ⟨name, values, docs⟩ := e
  have hinside := h.mono (Nat.le_succ fuel)
  have hname := hinside.entry (p := ("typeName", nameJson name)) (by simp)
  have hlist := hinside.entry (p := ("values", .arr (values.map enumValueJson))) (by simp)
  have hvalues : readList r.inner readEnumValue (Draft.ofJson (.arr (values.map enumValueJson))) =
      .ok values :=
    readList_map hlist.one_lt_of_arr fun v hv => readEnumValue_enumValueJson
      ((hlist.mono (Nat.le_succ fuel)).item (List.mem_map_of_mem hv)).one_lt_of_obj
  rw [readEnum, Enum.toJson, readRecord_obj_keys_iff independent_enumRules
    (by cases docs <;> simp)]
  cases docs <;>
    simp [enumRules, docsField, ReadsKeys, RecordField.setting, h.one_lt_of_obj, List.lookup_cons,
      readName_nameJson hname.one_lt_of_obj, hvalues]

lemma readFieldsUnder_toJson (label : String) {key : String} (hkey : key ≠ "typeName")
    (hdocs : key ≠ "docs") {o : Fields} (h : Fits fuel r (o.toJson key)) :
    readFieldsUnder fuel label key r (Draft.ofJson (o.toJson key)) = .ok o := by
  obtain ⟨name, fields, docs⟩ := o
  have hinside := h.mono (Nat.le_succ fuel)
  have hname := hinside.entry (p := ("typeName", nameJson name)) (by simp)
  have hlist := hinside.entry (p := (key, .arr (fields.map Field.toJson))) (by simp)
  have hfields := readFields_toJson (hlist.mono (Nat.le_succ fuel))
  have hne : (key == "typeName") = false := beq_false_of_ne hkey
  have hne' : ("docs" == key) = false := beq_false_of_ne hdocs.symm
  rw [readFieldsUnder, Fields.toJson,
    readRecord_obj_keys_iff (independent_fieldsRules fuel hkey hdocs)
      (by cases docs <;> simp [hkey.symm, hdocs])]
  cases docs <;>
    simp [fieldsRules, docsField, ReadsKeys, RecordField.setting, h.one_lt_of_obj, List.lookup_cons,
      readName_nameJson hname.one_lt_of_obj, hfields, hne, hne']

lemma readTypeDecl_toJson {d : TypeDecl} (h : Fits (fuel + 1) r d.toJson) :
    readTypeDecl fuel r (Draft.ofJson d.toJson) = .ok d := by
  cases d with
  | «alias» d =>
    rw [TypeDecl.toJson, readTypeDecl]
    have hread := readAlias_toJson h.of_tagged.content
    refine readTagged_tagged (by decide) rfl ?_
    exact map_ok_iff.2 ⟨d, readOnly_obj h.of_tagged.one_lt_of_obj hread, rfl⟩
  | enum d =>
    rw [TypeDecl.toJson, readTypeDecl]
    have hread := readEnum_toJson h.of_tagged.content
    refine readTagged_tagged (by decide) rfl ?_
    exact map_ok_iff.2 ⟨d, readOnly_obj h.of_tagged.one_lt_of_obj hread, rfl⟩
  | object d =>
    rw [TypeDecl.toJson, readTypeDecl]
    have hread := readFieldsUnder_toJson "struct RawObject" (by decide) (by decide)
      h.of_tagged.content
    refine readTagged_tagged (by decide) rfl ?_
    exact map_ok_iff.2 ⟨d, readOnly_obj h.of_tagged.one_lt_of_obj hread, rfl⟩
  | union d =>
    rw [TypeDecl.toJson, readTypeDecl]
    have hread := readFieldsUnder_toJson "struct RawUnion" (by decide) (by decide)
      h.of_tagged.content
    refine readTagged_tagged (by decide) rfl ?_
    exact map_ok_iff.2 ⟨d, readOnly_obj h.of_tagged.one_lt_of_obj hread, rfl⟩

lemma readError_toJson {e : ErrorDecl} (h : Fits fuel r e.toJson) :
    readError fuel r (Draft.ofJson e.toJson) = .ok e := by
  obtain ⟨name, namespaceName, code, safeArgs, sensitiveArgs, docs⟩ := e
  have hinside := h.mono (Nat.le_succ fuel)
  have hname := hinside.entry (p := ("errorName", nameJson name)) (by simp)
  have hsafe := hinside.entry (p := ("safeArgs", .arr (safeArgs.map Field.toJson))) (by simp)
  have hsensitive :=
    hinside.entry (p := ("unsafeArgs", .arr (sensitiveArgs.map Field.toJson))) (by simp)
  have hsafeArgs := readFields_toJson (hsafe.mono (Nat.le_succ fuel))
  have hsensitiveArgs := readFields_toJson (hsensitive.mono (Nat.le_succ fuel))
  rw [readError, ErrorDecl.toJson, readRecord_obj_keys_iff (independent_errorRules fuel)
    (by cases docs <;> simp)]
  cases docs <;>
    simp [errorRules, docsField, ReadsKeys, RecordField.setting, h.one_lt_of_obj, List.lookup_cons,
      readName_nameJson hname.one_lt_of_obj, hsafeArgs, hsensitiveArgs]

lemma readDocument_toJson {version : ℕ} {d : Document} (h : Fits fuel r (d.toJson version)) :
    readDocument fuel r (Draft.ofJson (d.toJson version)) = .ok d := by
  obtain ⟨types, errors⟩ := d
  have hinside := h.mono (Nat.le_succ fuel)
  have hlist := hinside.entry (p := ("types", .arr (types.map TypeDecl.toJson))) (by simp)
  have htypes : readList r.inner (readTypeDecl fuel)
      (Draft.ofJson (.arr (types.map TypeDecl.toJson))) = .ok types :=
    readList_map hlist.one_lt_of_arr fun d hd => readTypeDecl_toJson
      (((hlist.mono (Nat.le_succ fuel)).item (List.mem_map_of_mem hd)).mono (Nat.le_succ fuel))
  have hlist' := hinside.entry (p := ("errors", .arr (errors.map ErrorDecl.toJson))) (by simp)
  have herrors : readList r.inner (readError fuel)
      (Draft.ofJson (.arr (errors.map ErrorDecl.toJson))) = .ok errors :=
    readList_map hlist'.one_lt_of_arr fun e he => readError_toJson
      ((hlist'.mono (Nat.le_succ fuel)).item (List.mem_map_of_mem he))
  rw [readDocument, Document.toJson, readRecord_obj_keys_iff (independent_documentRules fuel)
    (by simp)]
  simp [documentRules, ReadsKeys, RecordField.setting, h.one_lt_of_obj, List.lookup_cons, htypes,
    herrors]

end ReadBack

/-- Every outline is read back from its written form. -/
theorem ofJson_toJson (version : ℕ) (d : Document) : ofJson (d.toJson version) = .ok d :=
  readDocument_toJson ⟨by simp, by simp⟩

end WireContract.Schema.Outline
