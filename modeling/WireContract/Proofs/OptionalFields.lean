import WireContract.Proofs.DerivedTraits
import WireContract.Proofs.NestedOptionals
import WireContract.Wire.Envelope

/-!
# Fields that are left out without a value

A field whose type is an option can be without a value, and there are two ways to write it then: not
at all, or as null.  Which of them is meant stands in the attribute of the field, and the attribute
is chosen by the reference as it is written, while the type comes from what is behind its external
names.  So the two part ways at an external name that falls back on an optional
(`missingValue_fieldOf`): the field is an option, but nothing in its attribute says that it
may be left out, and without a value it is written as null (`null_mem_encodeFields_iff`).

Objects and the parameters of errors are emitted and written alike (`emittedRecords`).
-/

namespace WireContract.Emit

open Json Rust Schema Wire

/-! ## What an emitted field says -/

/-- An attribute by which a field without a value is neither expected nor written. -/
def leavesOutNone : Attr → Bool
  | .list p args =>
    p == .ofWords ["serde"] && args.contains (.path (.ofWords ["default"])) &&
      args.contains (.keyed "skip_serializing_if" "Option::is_none")
  | _ => false

lemma fieldRule_eq_omitted_iff (reg : Registry) {r : TypeRef} :
    reg.fieldRule r = .omitted ↔ ∃ inner, r = .optional inner := by
  unfold Registry.fieldRule
  by_cases h : reg.isCollection r = true
  · rw [if_pos h]
    refine iff_of_false (by decide) ?_
    rintro ⟨inner, rfl⟩
    cases h
  · rw [if_neg h]
    cases r <;> simp

/-- A field is left out without a value exactly if its reference is written as an optional. -/
lemma leavesOutNone_fieldOf_iff {scope : Scope} {key : String} {r : TypeRef} {docs : Option String}
    {boxed : Bool} :
    (fieldOf scope key r docs boxed).attrs.any leavesOutNone = true ↔
      ∃ inner, r = .optional inner := by
  rw [any_attrs_fieldOf fun _ => rfl, ← fieldRule_eq_omitted_iff scope.contract.registry, fieldAttr]
  cases scope.contract.registry.fieldRule r <;> simp [Attr.ofArgs, leavesOutNone]

/-- An item inside another is not at a path of one word. -/
lemma join_ne_ofWords {p : Path} {first second word : String} :
    p.join [first, second] ≠ .ofWords [word] := by
  intro h
  have hlength := congrArg (fun p => p.segments.length) h
  simp [Path.join, Path.ofWords] at hlength

/-- Among the types of stored forms, only those of options are spelled as one. -/
lemma Stored.exists_type_eq_option_iff {imports : Imports} {runtime : Path} {form : Stored} :
    (∃ t, form.type imports runtime = .apply "Option" [t]) ↔ ∃ content, form = .option content := by
  cases form with
  | primitive p =>
    cases p with
    | datetime => simp [type, primitiveType, Ty.apply, join_ne_ofWords]
    | _ => simp [type, primitiveType, Ty.ofWord, Ty.ofPath, Ty.apply]
  | option content => exact ⟨fun _ => ⟨content, rfl⟩, fun _ => ⟨_, rfl⟩⟩
  | vec | boxed => simp [type, Ty.apply, Path.ofWords]
  | set | map => simp [type, Ty.apply, Path.ofWords, Path.std]
  | binary | named => simp [type, Ty.ofPath, Ty.apply]

/-- The emitted type of a slot is an option exactly if an optional is behind the external names of
its reference. -/
lemma Scope.exists_stored_eq_option_iff {scope : Scope} {r : TypeRef} {boxed : Bool} :
    (∃ t, scope.stored r boxed = .apply "Option" [t]) ↔
      (∃ inner, r = .optional inner) ∨ r.FallsBackOnOptional := by
  rw [Scope.stored, Stored.exists_type_eq_option_iff, TypeRef.exists_stored_eq_option_iff,
    TypeRef.withoutExternals_eq_optional_iff]

lemma not_fallsBackOnOptional_optional {inner : TypeRef} :
    ¬ (TypeRef.optional inner).FallsBackOnOptional := by
  rintro ⟨q, fallback, t, h, -⟩
  cases h

/-! ## Missing values on the wire -/

/-- A missing value is written as null exactly if the reference of its field is not written as an
optional. -/
lemma null_mem_encodeFields_iff {reg : Registry} {o : Object} {values : List Value} {f : Field}
    (hnodup : (o.fields.map (·.name)).Nodup) (hlength : values.length = o.fields.length)
    (hf : (f, .absent) ∈ o.fields.zip values) :
    (f.name, .null) ∈ encodeFields reg o.fields values ↔ ∀ inner, f.type ≠ .optional inner := by
  rw [← not_exists, ← fieldRule_eq_omitted_iff reg, encodeFields_eq_map, List.mem_map]
  constructor
  · rintro ⟨p, hp, hname⟩ hrule
    -- names are distinct, so what is written under the name is the field itself
    have hpf : p = (f, .absent) :=
      List.inj_on_of_nodup_map (nodup_zip_names hnodup hlength) (mem_zip_of_written hp) hf
        (congrArg Prod.fst hname)
    subst hpf
    simpa [isOmitted, hrule] using (List.mem_filter.1 hp).2
  · intro hrule
    refine ⟨(f, .absent), List.mem_filter.2 ⟨hf, by simpa [isOmitted] using hrule⟩, ?_⟩
    exact congrArg (f.name, ·) (encodeBase_wrapped_absent _ 0)

/-! ## Records of a contract -/

/-- The records that are emitted for a declaration, each beside the object that it is emitted for:
an object has one, and an error the one of its parameters. -/
def emittedRecords (scope : Scope) : Declaration → List (Object × List RecordField)
  | .object o => [(o, objectFields scope o)]
  | .error e => [(paramsObject e, paramFields scope e)]
  | .alias _ | .enum _ | .union _ => []

/-- What a field of an object and the field emitted for it say about a missing value. -/
structure MissingValue (reg : Registry) (o : Object) (f : Field) (x : RecordField) : Prop where
  /-- The attribute follows the reference as it is written. -/
  leftOut : x.attrs.any leavesOutNone = true ↔ ∃ inner, f.type = .optional inner
  /-- The type follows what is behind the external names. -/
  option : (∃ t, x.type = .apply "Option" [t]) ↔
    (∃ inner, f.type = .optional inner) ∨ f.type.FallsBackOnOptional
  /-- The two agree unless the reference is external and falls back on an optional. -/
  agree : (x.attrs.any leavesOutNone = true ↔ ∃ t, x.type = .apply "Option" [t]) ↔
    ¬ f.type.FallsBackOnOptional
  /-- In a record, a missing value is written as null exactly if the attribute is not there. -/
  written : ∀ values : List Value, values.length = o.fields.length →
    (f, .absent) ∈ o.fields.zip values →
    ((f.name, .null) ∈ encodeFields reg o.fields values ↔ x.attrs.any leavesOutNone = false)

lemma missingValue_fieldOf {reg : Registry} {o : Object} {f : Field} {scope : Scope}
    {key : String} {docs : Option String} {boxed : Bool}
    (hnodup : (o.fields.map (·.name)).Nodup) :
    MissingValue reg o f (fieldOf scope key f.type docs boxed) where
  leftOut := leavesOutNone_fieldOf_iff
  option := Scope.exists_stored_eq_option_iff
  agree := by
    rw [type_fieldOf, leavesOutNone_fieldOf_iff, Scope.exists_stored_eq_option_iff, iff_self_or]
    refine ⟨fun h hback => ?_, fun h hback => (h hback).elim⟩
    obtain ⟨inner, hr⟩ := h hback
    rw [hr] at hback
    exact not_fallsBackOnOptional_optional hback
  written := by
    intro values hlength hf
    rw [null_mem_encodeFields_iff hnodup hlength hf, ← Bool.not_eq_true, leavesOutNone_fieldOf_iff,
      not_exists]

lemma nodup_names_of_mem_emittedRecords {scope : Scope} {d : Declaration} (hd : d.WellFormed)
    {o : Object} {fields : List RecordField} (h : (o, fields) ∈ emittedRecords scope d) :
    (o.fields.map (·.name)).Nodup := by
  cases d with
  | object d =>
    obtain ⟨rfl, -⟩ := Prod.mk.inj (List.mem_singleton.1 h)
    exact hd.members.distinct.of_map
  | error d =>
    obtain ⟨rfl, -⟩ := Prod.mk.inj (List.mem_singleton.1 h)
    have hnames : (paramsObject d).fields.map (·.name) = d.params.map (·.name) := by
      simp [paramsObject]
    rw [hnames]
    exact hd.members.2.distinct.of_map
  | «alias» | enum | union => cases h

/-- In every accepted document, a field of an object or a parameter of an error is an option if an
optional is behind the external names of its reference, but it is left out without a value only if
the reference is written as an optional itself.  Where the two differ, none is written as null. -/
theorem none_left_out_unless_fallback (doc : Document) (c : Contract)
    (h : Contract.ofDocument doc = .ok c) (d : Declaration) (hd : d ∈ doc.declarations)
    (runtime : Path) (imports : Imports) :
    ∀ record ∈ emittedRecords ⟨c, runtime, imports⟩ d,
      List.Forall₂ (MissingValue c.registry record.1) record.1.fields record.2 := by
  rintro ⟨o, fields⟩ hrecord
  have hof := Contract.of_ofDocument h
  have hnodup := nodup_names_of_mem_emittedRecords
    (hof.lawful.wellFormed d (hof.perm.mem_iff.2 hd)) hrecord
  cases d with
  | object d =>
    obtain ⟨rfl, rfl⟩ := Prod.mk.inj (List.mem_singleton.1 hrecord)
    refine List.forall₂_map_right_iff.2 (List.forall₂_same.2 fun f _ => ?_)
    exact missingValue_fieldOf hnodup
  | error d =>
    obtain ⟨rfl, rfl⟩ := Prod.mk.inj (List.mem_singleton.1 hrecord)
    refine List.forall₂_map_left_iff.2 (List.forall₂_map_right_iff.2 ?_)
    exact List.forall₂_same.2 fun p _ => missingValue_fieldOf hnodup
  | «alias» | enum | union => cases hrecord

/-- An object with a field that falls back on an optional and one that is written as an optional. -/
def note : Object :=
  ⟨⟨"m", "Note"⟩,
    [⟨"text", .external ⟨"x", "Text"⟩ (.optional (.primitive .string)), none, none⟩,
      ⟨"title", .optional (.primitive .string), none, none⟩], none⟩

/-- The object, with an error whose parameter falls back on an optional twice. -/
def notebook : Document :=
  ⟨1, [.error ⟨⟨"m", "Lost"⟩, "Notes", .notFound,
      [⟨"place", .external ⟨"x", "Place"⟩
        (.external ⟨"y", "Place"⟩ (.optional (.primitive .string))), .safe, none⟩], none⟩,
    .object note]⟩

lemma exists_contract_notebook : ∃ c, Contract.ofDocument notebook = .ok c :=
  Outcome.exists_ok_of_isOk (Contract.isOk_of_ranked (fun _ => 0) (by decide) rfl rfl (by decide))

/-- The field that is written as an optional is an option and left out without a value. -/
theorem none_left_out_unless_fallback_notebook :
    ∃ c, Contract.ofDocument notebook = .ok c ∧ .object note ∈ notebook.declarations ∧
      ∃ text title, objectFields ⟨c, .ofWords ["wire"], "m", []⟩ note = [text, title] ∧
        title.attrs.any leavesOutNone = true ∧ (∃ t, title.type = .apply "Option" [t]) ∧
        ("title", .null) ∉ encodeFields c.registry note.fields [.absent, .absent] := by
  obtain ⟨c, hc⟩ := exists_contract_notebook
  have hmem : .object note ∈ notebook.declarations := by decide
  have hfields := none_left_out_unless_fallback _ _ hc _ hmem (.ofWords ["wire"]) ⟨"m", []⟩
    (note, objectFields _ note) List.mem_cons_self
  obtain ⟨-, htitle⟩ := List.forall₂_cons.1 hfields
  obtain ⟨htitle, -⟩ := List.forall₂_cons.1 htitle
  have hleft := htitle.leftOut.2 ⟨_, rfl⟩
  refine ⟨c, hc, hmem, _, _, rfl, hleft, htitle.option.2 (.inl ⟨_, rfl⟩), fun hnull => ?_⟩
  have hwritten := htitle.written [.absent, .absent] rfl
    (List.mem_cons_of_mem _ List.mem_cons_self)
  exact Bool.false_ne_true ((hwritten.1 hnull).symm.trans hleft)

/-- The field that falls back on an optional is an option that is not left out: without a value it
is written as null. -/
theorem none_written_as_null :
    ∃ c, Contract.ofDocument notebook = .ok c ∧ .object note ∈ notebook.declarations ∧
      ∃ text title, objectFields ⟨c, .ofWords ["wire"], "m", []⟩ note = [text, title] ∧
        text.type = .apply "Option" [.ofWord "String"] ∧
        text.attrs = [.ofArgs "serde" [.keyed "rename" "text"]] ∧
        encodeFields c.registry note.fields [.absent, .absent] = [("text", .null)] := by
  obtain ⟨c, hc⟩ := exists_contract_notebook
  refine ⟨c, hc, by decide, _, _, rfl, rfl, rfl, ?_⟩
  rw [encodeFields_eq_map]
  rfl

end WireContract.Emit
