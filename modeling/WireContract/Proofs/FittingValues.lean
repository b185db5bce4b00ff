import Mathlib.Data.List.Nodup
import Mathlib.Tactic.Common
import WireContract.Proofs.Readers
import WireContract.Wire.Decode
import WireContract.Wire.Encode

/-!
# What reading gives

`Fits reg f x` says that `x` is a value of the form `f` as reading gives it: numbers are within
their bounds, the values of an enumeration are in upper case, maps are sorted, a record has a value
for each of its fields, and a member that a union does not declare holds a value with each key once.
The main result is `fits_of_decodeForm`: whatever is read fits, whichever draft it is read from.

The forms considered are those of a `Plain` set of bases.  It is closed under taking parts, has no
sets, and its maps have texts for keys.
-/

namespace WireContract.Wire

open Json Schema Outcome

/-! ## Plain sets of bases -/

/-- The references whose values a value of the base has inside. -/
def Base.parts : Base → List TypeRef
  | .list item | .set item => [item]
  | .map _ value => [value]
  | .object o => o.fields.map (·.type)
  | .union u => u.members.map (·.type)
  | _ => []

/-- Whether the values of a base are lists or maps. -/
def Base.isListOrMap : Base → Bool
  | .list _ | .map _ _ => true
  | _ => false

/-- What the rule for a field asks of the form of its values. -/
def RuleFits (reg : Registry) (t : TypeRef) (f : Form) : Prop :=
  match reg.fieldRule t with
  | .required => True
  | .emptyDefault => f.optionals = 0 ∧ f.base.isListOrMap = true
  | .omitted => 0 < f.optionals

instance (reg : Registry) (t : TypeRef) (f : Form) : Decidable (RuleFits reg t f) := by
  unfold RuleFits
  cases reg.fieldRule t <;> infer_instance

/-- The conditions on one base. -/
def Base.IsPlain (reg : Registry) : Base → Prop
  | .set _ => False
  | .map key _ => form? reg key = some ⟨0, .primitive .string⟩
  | .object o => (o.fields.map (·.name)).Nodup ∧
      ∀ field ∈ o.fields, ∀ f ∈ form? reg field.type, RuleFits reg field.type f
  | .union u => ∀ m ∈ u.members, m.tag ≠ tagKey
  | _ => True

instance (reg : Registry) (b : Base) : Decidable (b.IsPlain reg) :=
  match b with
  | .set _ => inferInstanceAs (Decidable False)
  | .map key _ => inferInstanceAs (Decidable (form? reg key = some ⟨0, .primitive .string⟩))
  | .object o => inferInstanceAs (Decidable ((o.fields.map (·.name)).Nodup ∧
      ∀ field ∈ o.fields, ∀ f ∈ form? reg field.type, RuleFits reg field.type f))
  | .union u => inferInstanceAs (Decidable (∀ m ∈ u.members, m.tag ≠ tagKey))
  | .primitive _ | .binary | .list _ | .enum _ => inferInstanceAs (Decidable True)

/-- A set of bases that is closed under taking parts, and whose values are read back from what is
written for them. -/
structure Plain (reg : Registry) (bases : List Base) : Prop where
  /-- The parts of a value have forms, and their bases are in the set. -/
  exists_form : ∀ b ∈ bases, ∀ t ∈ b.parts, ∃ f, form? reg t = some f ∧ f.base ∈ bases
  isPlain : ∀ b ∈ bases, b.IsPlain reg

/-! ## Fitting values -/

/-- The bounds of the integers of a primitive type. -/
def intBounds : Primitive → Option (Int × Int)
  | .integer => some (-2147483648, 2147483647)
  | .safelong => some (-9223372036854775808, 9223372036854775807)
  | _ => none

/-- The primitive types whose values are texts as they stand. -/
def isText : Primitive → Bool
  | .string | .rid | .bearertoken => true
  | _ => false

/-- The entries of a map with texts for keys. -/
def textEntries (entries : List (String × Value)) : List (Value × Value) :=
  entries.map fun e => (.text e.1, e.2)

/-- The keys come in their order, each once. -/
def KeysSorted (entries : List (String × Value)) : Prop :=
  entries.Pairwise fun a b => compare a.1 b.1 = .lt

/-- A value of a form, as reading gives it. -/
inductive Fits (reg : Registry) : Form → Value → Prop where
  | absent (n : ℕ) (b : Base) : Fits reg ⟨n + 1, b⟩ .absent
  | present {n : ℕ} {b : Base} {v : Value} (h : Fits reg ⟨n, b⟩ v)
      (hnull : encodeBase reg b v ≠ .null) : Fits reg ⟨n + 1, b⟩ (.present v)
  | text {p : Primitive} (hp : isText p = true) (s : String) :
      Fits reg ⟨0, .primitive p⟩ (.text s)
  | int {p : Primitive} {least greatest n : Int} (hp : intBounds p = some (least, greatest))
      (hleast : least ≤ n) (hgreatest : n ≤ greatest) : Fits reg ⟨0, .primitive p⟩ (.int n)
  | double (x : Double) : Fits reg ⟨0, .primitive .double⟩ (.double x)
  | bool (b : Bool) : Fits reg ⟨0, .primitive .boolean⟩ (.bool b)
  | instant (t : Instant) : Fits reg ⟨0, .primitive .datetime⟩ (.instant t)
  | uuid (u : Uuid) : Fits reg ⟨0, .primitive .uuid⟩ (.uuid u)
  | any {v : Json} (hv : v.distinct = v) : Fits reg ⟨0, .primitive .any⟩ (.any v)
  | bytes (bs : List UInt8) : Fits reg ⟨0, .binary⟩ (.bytes bs)
  | list {item : TypeRef} {items : List Value}
      (h : ∀ v ∈ items, ∀ f, form? reg item = some f → Fits reg f v) :
      Fits reg ⟨0, .list item⟩ (.list items)
  | map {key value : TypeRef} {entries : List (String × Value)}
      (hsorted : KeysSorted entries)
      (h : ∀ e ∈ entries, ∀ f, form? reg value = some f → Fits reg f e.2) :
      Fits reg ⟨0, .map key value⟩ (.map (textEntries entries))
  | enum (e : Enum) (s : String) : Fits reg ⟨0, .enum e⟩ (.ofEnumText e s)
  | record {o : Object} {values : List Value} (hlength : values.length = o.fields.length)
      (h : ∀ p ∈ o.fields.zip values, ∀ f, form? reg p.1.type = some f → Fits reg f p.2) :
      Fits reg ⟨0, .object o⟩ (.record values)
  | member {u : Union} {tag : String} {declared : Member} {v : Value}
      (hfind : u.members.find? (·.tag == tag) = some declared)
      (h : ∀ f, form? reg declared.type = some f → Fits reg f v) :
      Fits reg ⟨0, .union u⟩ (.member tag v)
  /-- The key of the tag cannot hold a value too, so a member with that tag holds null. -/
  | unknownMember {u : Union} {tag : String} {v : Json}
      (hfind : u.members.find? (·.tag == tag) = none) (hv : v.distinct = v)
      (htag : tag = tagKey → v = .null) : Fits reg ⟨0, .union u⟩ (.unknownMember tag v)

/-- A value of each form that the reference has. -/
def FitsRef (reg : Registry) (t : TypeRef) (v : Value) : Prop :=
  ∀ f, form? reg t = some f → Fits reg f v

/-! ## The steps of reading -/

/-- The reader of what is inside a value. -/
def inside (reg : Registry) (limit : ℕ) : ReadInside :=
  fun source t d => decode reg t ⟨source, limit⟩ d

section Steps

variable {reg : Registry} {limit : ℕ} {source : Source}

lemma decodeForm_base (hlimit : 0 < limit) (b : Base) (d : Draft) :
    decodeForm reg limit source ⟨0, b⟩ d =
      readBase reg (inside reg (limit - 1)) ⟨source, limit⟩ d b := by
  obtain ⟨limit, rfl⟩ := Nat.exists_eq_add_one_of_ne_zero (Nat.ne_of_gt hlimit)
  rw [decodeForm]
  simp only [Nat.lt_irrefl, decide_false, Bool.false_and, Bool.false_eq_true, if_false]
  exact id_map' _

lemma decodeForm_null (hlimit : 0 < limit) (n : ℕ) (b : Base) :
    decodeForm reg limit source ⟨n + 1, b⟩ .null = .ok .absent := by
  obtain ⟨limit, rfl⟩ := Nat.exists_eq_add_one_of_ne_zero (Nat.ne_of_gt hlimit)
  rw [decodeForm]
  simp [isNull]

lemma decodeForm_present (hlimit : 0 < limit) {d : Draft} (hd : isNull d = false) (n : ℕ)
    (b : Base) :
    decodeForm reg limit source ⟨n + 1, b⟩ d =
      .present <$> decodeForm reg limit source ⟨n, b⟩ d := by
  obtain ⟨limit, rfl⟩ := Nat.exists_eq_add_one_of_ne_zero (Nat.ne_of_gt hlimit)
  rw [decodeForm, decodeForm]
  simp only [hd, Bool.and_false, Bool.false_eq_true, if_false, Functor.map_map]
  rfl

end Steps

/-! ## Scalars -/

lemma fits_of_readPrimitive {reg : Registry} {r : Reader} {d : Draft} {p : Primitive} {v : Value}
    (h : readPrimitive r d p = .ok v) : Fits reg ⟨0, .primitive p⟩ v := by
  cases p with
  | string | rid | bearertoken =>
    obtain ⟨s, -, rfl⟩ := map_ok_iff.1 h
    exact .text rfl s
  | datetime =>
    obtain ⟨t, -, rfl⟩ := map_ok_iff.1 h
    exact .instant t
  | integer | safelong =>
    obtain ⟨n, hn, rfl⟩ := map_ok_iff.1 h
    obtain ⟨hleast, hgreatest⟩ := bounds_of_readInt hn
    exact .int rfl hleast hgreatest
  | double =>
    obtain ⟨x, -, rfl⟩ := map_ok_iff.1 h
    exact .double x
  | boolean =>
    obtain ⟨b, -, rfl⟩ := map_ok_iff.1 h
    exact .bool b
  | uuid =>
    obtain ⟨u, -, rfl⟩ := map_ok_iff.1 h
    exact .uuid u
  | any =>
    obtain ⟨j, hj, rfl⟩ := map_ok_iff.1 h
    exact .any (Draft.complete_distinct hj)

/-! ## Maps -/

/-- An entry with a text for a key goes to its place.  A text before the new key and before those
already there is before all keys of the result. -/
lemma exists_insertEntry {P : Value → Prop} {s : String} {v : Value} (hv : P v)
    {entries : List (String × Value)} (hsorted : KeysSorted entries)
    (hentries : ∀ e ∈ entries, P e.2) :
    ∃ entries', Value.insertEntry (.text s, v) (textEntries entries) = textEntries entries' ∧
      KeysSorted entries' ∧ (∀ e ∈ entries', P e.2) ∧
      ∀ t, compare t s = .lt → (∀ e ∈ entries, compare t e.1 = .lt) →
        ∀ e ∈ entries', compare t e.1 = .lt := by
  induction entries with
  | nil => exact ⟨[(s, v)], rfl, List.pairwise_singleton .., by simpa using hv, by simp⟩
  | cons e rest ih =>
    obtain ⟨k, w⟩ := e
    obtain ⟨hk, hrest⟩ := List.pairwise_cons.1 hsorted
    obtain ⟨hw, hvalues⟩ := List.forall_mem_cons.1 hentries
    simp only [textEntries, List.map_cons, Value.insertEntry, Value.compare]
    cases hcmp : compare s k with
    | lt =>
      refine ⟨(s, v) :: (k, w) :: rest, rfl, ?_, List.forall_mem_cons.2 ⟨hv, hentries⟩, ?_⟩
      · refine List.pairwise_cons.2 ⟨?_, hsorted⟩
        exact List.forall_mem_cons.2 ⟨hcmp, fun e he => Std.TransCmp.lt_trans hcmp (hk e he)⟩
      · exact fun t hs ht => List.forall_mem_cons.2 ⟨hs, ht⟩
    | eq =>
      refine ⟨(k, v) :: rest, rfl, List.pairwise_cons.2 ⟨hk, hrest⟩,
        List.forall_mem_cons.2 ⟨hv, hvalues⟩, fun t _ ht => ?_⟩
      obtain ⟨hk, hrest⟩ := List.forall_mem_cons.1 ht
      exact List.forall_mem_cons.2 ⟨hk, hrest⟩
    | gt =>
      obtain ⟨rest', heq, hsorted', hvalues', hbound⟩ := ih hrest hvalues
      refine ⟨(k, w) :: rest', by rw [← textEntries, heq]; rfl, ?_,
        List.forall_mem_cons.2 ⟨hw, hvalues'⟩, fun t hs ht => ?_⟩
      · exact List.pairwise_cons.2 ⟨hbound k (Std.OrientedCmp.gt_iff_lt.1 hcmp) hk, hsorted'⟩
      · obtain ⟨hk, hrest⟩ := List.forall_mem_cons.1 ht
        exact List.forall_mem_cons.2 ⟨hk, hbound t hs hrest⟩

/-- Entries with texts for keys, added one by one, end up sorted. -/
lemma exists_foldl_insertEntry {P : Value → Prop} {found : List (Value × Value)}
    (hfound : ∀ e ∈ found, ∃ s, e.1 = .text s ∧ P e.2) {entries : List (String × Value)}
    (hsorted : KeysSorted entries) (hentries : ∀ e ∈ entries, P e.2) :
    ∃ entries', found.foldl (fun sorted e => Value.insertEntry e sorted) (textEntries entries) =
      textEntries entries' ∧ KeysSorted entries' ∧ ∀ e ∈ entries', P e.2 := by
  induction found generalizing entries with
  | nil => exact ⟨entries, rfl, hsorted, hentries⟩
  | cons e found ih =>
    obtain ⟨⟨s, hs, hP⟩, hfound⟩ := List.forall_mem_cons.1 hfound
    obtain ⟨entries', heq, hsorted', hentries', -⟩ :=
      exists_insertEntry (s := s) hP hsorted hentries
    rw [List.foldl_cons, show e = (.text s, e.2) from Prod.ext hs rfl, heq]
    exact ih hfound hsorted' hentries'

/-- A key that is a text is read as it stands. -/
lemma inside_keyDraft_ok_iff {reg : Registry} {limit : ℕ} {source : Source} {key : TypeRef}
    (hkey : form? reg key = some ⟨0, .primitive .string⟩) {s : String} {k : Value} :
    inside reg limit source key (keyDraft reg key s) = .ok k ↔ 0 < limit ∧ k = .text s := by
  simp only [inside, decode, keyDraft, hkey]
  cases limit with
  | zero => simp [decodeForm]
  | succ limit =>
    rw [decodeForm_base limit.succ_pos]
    simp [readBase, readPrimitive, readString, eq_comm]

/-! ## Records -/

/-- The value of a field that is missing fits, unless the field has to be there. -/
lemma fitsRef_defaultOf {reg : Registry} {t : TypeRef}
    (hrule : ∀ f, form? reg t = some f → RuleFits reg t f) (h : presenceOf reg t ≠ .required) :
    FitsRef reg t (defaultOf reg t) := by
  rintro ⟨n, b⟩ hf
  have hfit := hrule _ hf
  rw [defaultOf, hf]
  cases n with
  | succ n => exact .absent n b
  | zero =>
    unfold presenceOf isNullable at h
    unfold RuleFits at hfit
    cases hr : reg.fieldRule t with
    | required => simp [hr, hf] at h
    | omitted => simp [hr] at hfit
    | emptyDefault =>
      simp only [hr, true_and] at hfit
      cases b with
      | list item => exact .list (by simp)
      | map key value => exact @Fits.map reg key value [] .nil (by simp)
      | _ => cases hfit

section Records

variable {reg : Registry} {read : ReadInside}

lemma recordField_read {field : Field} {r : Reader} {d : Draft}
    {found found' : List (String × Value)}
    (hrule : ∀ f, form? reg field.type = some f → RuleFits reg field.type f)
    (hread : ∀ source d v, read source field.type d = .ok v → FitsRef reg field.type v)
    (h : (recordField reg read field).read r d found = .ok found') :
    ∃ v, found' = (field.name, v) :: found ∧ FitsRef reg field.type v := by
  simp only [recordField] at h
  split_ifs at h with hdefault
  · cases h
    refine ⟨_, rfl, fitsRef_defaultOf hrule ?_⟩
    simp only [Bool.and_eq_true, beq_iff_eq] at hdefault
    simp [presenceOf, hdefault.1]
  · obtain ⟨v, hv, h⟩ := bind_ok_iff.1 h
    cases h
    exact ⟨v, rfl, hread _ _ _ hv⟩

lemma fits_of_readObject {o : Object} {r : Reader} {d : Draft} {x : Value}
    (hplain : (Base.object o).IsPlain reg)
    (hread : ∀ field ∈ o.fields, ∀ source d v, read source field.type d = .ok v →
      FitsRef reg field.type v)
    (h : readObject reg read r o d = .ok x) : Fits reg ⟨0, .object o⟩ x := by
  obtain ⟨hnodup, hrules⟩ := hplain
  obtain ⟨found, hfound, h⟩ := bind_ok_iff.1 h
  cases h
  -- each value found is one of a field with its name, and `seen` are the names found
  obtain ⟨seen, ⟨hvalues, rfl⟩, hrequired⟩ := readRecord_invariant
    (P := fun found seen => (∀ p ∈ found, ∃ field ∈ o.fields, field.name = p.1 ∧
      FitsRef reg field.type p.2) ∧ seen = found.map (·.1))
    (fun r rule hrule d found seen found' hP hd => by
      obtain ⟨field, hfield, rfl⟩ := List.mem_map.1 hrule
      obtain ⟨v, rfl, hv⟩ := recordField_read (hrules field hfield) (hread field hfield) hd
      exact ⟨List.forall_mem_cons.2 ⟨⟨field, hfield, rfl, hv⟩, hP.1⟩, by rw [hP.2]; rfl⟩)
    ⟨by simp, rfl⟩ hfound
  refine .record (by simp [inOrder]) fun p hp => ?_
  have hzip : o.fields.zip (inOrder reg o.fields found) =
      o.fields.map fun f => (f, (found.lookup f.name).getD (defaultOf reg f.type)) := by
    simpa [inOrder] using List.zip_map' (f := id) (l := o.fields)
  rw [hzip] at hp
  obtain ⟨field, hfield, rfl⟩ := List.mem_map.1 hp
  cases hlookup : found.lookup field.name with
  | some v =>
    obtain ⟨before, after, hsplit, -⟩ := List.lookup_eq_some_iff.1 hlookup
    obtain ⟨field', hfield', hname, hv⟩ := hvalues (field.name, v) (by simp [hsplit])
    obtain rfl := List.inj_on_of_nodup_map hnodup hfield' hfield hname
    exact hv
  | none =>
    refine fitsRef_defaultOf (hrules field hfield) fun hreq => ?_
    have hseen := hrequired (recordField reg read field) (List.mem_map_of_mem hfield) hreq
    obtain ⟨p, hp, hname⟩ := List.mem_map.1 hseen
    have := List.lookup_eq_none_iff.1 hlookup p hp
    simp [hname, recordField] at this

end Records

/-! ## Unions -/

namespace Tagged

lemma read_ok_iff {r : Reader} {d : Draft} {m : Tagged} :
    read r d = .ok m ↔
      ∃ fields, d.complete r.limit = .ok (.obj fields) ∧ ofFields fields = .ok m := by
  cases d with
  | obj fields stop =>
    rw [read, bind_ok_iff]
    constructor
    · rintro ⟨j, hj, h⟩
      cases j with
      | obj fields => exact ⟨fields, hj, h⟩
      | _ => cases h
    · rintro ⟨fields, hj, h⟩
      exact ⟨_, hj, h⟩
  | arr items stop =>
    refine iff_of_false unexpected_ne_ok ?_
    rintro ⟨fields, h, -⟩
    obtain ⟨-, -, xs, -, h⟩ := Draft.complete_arr_ok_iff.1 h
    cases h
  | num n | str n =>
    refine iff_of_false unexpected_ne_ok ?_
    rintro ⟨fields, h, -⟩
    cases n <;> cases h
  | _ =>
    refine iff_of_false unexpected_ne_ok ?_
    rintro ⟨fields, h, -⟩
    cases h

lemma ofFields_ok_iff {fields : List (String × Json)} {m : Tagged} :
    ofFields fields = .ok m ↔ fields.lookup tagKey = some (.str m.tag) ∧
      m.value = ((Json.erase fields tagKey).lookup m.tag).getD .null := by
  unfold ofFields
  split
  case h_1 h => simp [h]
  case h_2 tag h =>
    obtain ⟨t, v⟩ := m
    simp only [h, Except.ok.injEq, Tagged.mk.injEq, Option.some.injEq, Json.str.injEq]
    constructor
    · rintro ⟨rfl, rfl⟩
      exact ⟨rfl, rfl⟩
    · rintro ⟨rfl, rfl⟩
      exact ⟨rfl, rfl⟩
  case h_3 found hstr h =>
    refine iff_of_false (by simp) ?_
    rintro ⟨htag, -⟩
    rw [h] at htag
    cases htag
    exact hstr _ rfl

/-- The value of a member has each key once, as the whole object does, and there is none besides
the tag under the key of the tag. -/
lemma distinct_value {fields : List (String × Json)} {m : Tagged}
    (hfields : (Json.obj fields).distinct = .obj fields) (h : ofFields fields = .ok m) :
    m.value.distinct = m.value ∧ (m.tag = tagKey → m.value = .null) := by
  rw [(ofFields_ok_iff.1 h).2]
  cases hlookup : (Json.erase fields tagKey).lookup m.tag with
  | none => exact ⟨rfl, fun _ => rfl⟩
  | some v =>
    obtain ⟨before, after, hsplit, -⟩ := List.lookup_eq_some_iff.1 hlookup
    have hmem : (m.tag, v) ∈ Json.erase fields tagKey := by simp [hsplit]
    obtain ⟨hin, hne⟩ := List.mem_filter.1 hmem
    refine ⟨(distinct_obj_iff.1 hfields).2 _ hin, fun htag => ?_⟩
    simp [htag] at hne

end Tagged

lemma fits_of_readUnion {reg : Registry} {read : ReadInside} {u : Union} {r : Reader} {d : Draft}
    {x : Value}
    (hread : ∀ m ∈ u.members, ∀ source d v, read source m.type d = .ok v → FitsRef reg m.type v)
    (h : readUnion read r u d = .ok x) : Fits reg ⟨0, .union u⟩ x := by
  obtain ⟨m, hm, h⟩ := bind_ok_iff.1 h
  obtain ⟨fields, hwhole, hfields⟩ := Tagged.read_ok_iff.1 hm
  obtain ⟨hdistinct, htag⟩ := Tagged.distinct_value (Draft.complete_distinct hwhole) hfields
  split at h
  case h_1 declared hfind =>
    obtain ⟨v, hv, rfl⟩ := map_ok_iff.1 h
    exact .member hfind (hread declared (List.mem_of_find?_eq_some hfind) _ _ _ hv)
  case h_2 hfind =>
    cases h
    exact .unknownMember hfind hdistinct htag

/-! ## Values -/

lemma encodeBase_ofEnumText (reg : Registry) (b : Base) (e : Enum) (s : String) :
    encodeBase reg b (.ofEnumText e s) = .str (Text.upper s) := by
  unfold Value.ofEnumText
  dsimp only
  split <;> simp [encodeBase]

/-- Only free JSON is written as null. -/
lemma Fits.eq_any_of_null {reg : Registry} {b : Base} {x : Value} (h : Fits reg ⟨0, b⟩ x)
    (hnull : encodeBase reg b x = .null) : b = .primitive .any ∧ x = .any .null := by
  cases h with
  | any hv =>
    rw [encodeBase] at hnull
    exact ⟨rfl, by rw [hnull]⟩
  | enum e s => simp [encodeBase_ofEnumText] at hnull
  | _ => simp [encodeBase, Tagged.toJson] at hnull

lemma fits_of_readBase {reg : Registry} {read : ReadInside} {b : Base} {r : Reader} {d : Draft}
    {x : Value} (hplain : b.IsPlain reg) (hkey : ∀ key value s k source, b = .map key value →
      read source key (keyDraft reg key s) = .ok k → k = .text s)
    (hread : ∀ t ∈ b.parts, ∀ source d v, read source t d = .ok v → FitsRef reg t v)
    (h : readBase reg read r d b = .ok x) : Fits reg ⟨0, b⟩ x := by
  cases b with
  | primitive p => exact fits_of_readPrimitive h
  | binary =>
    obtain ⟨bs, -, rfl⟩ := map_ok_iff.1 h
    exact .bytes bs
  | list item =>
    obtain ⟨items, hitems, rfl⟩ := map_ok_iff.1 h
    obtain ⟨ds, -, -, hds⟩ := readList_ok_iff.1 hitems
    refine .list fun v hv => ?_
    obtain ⟨d, -, hd⟩ := exists_of_mem_forall₂ hds hv
    exact hread item List.mem_cons_self _ _ _ hd
  | set item => exact hplain.elim
  | map key value =>
    obtain ⟨found, hfound, h⟩ := bind_ok_iff.1 h
    cases h
    obtain ⟨ds, -, -, hds⟩ := readEntries_ok_iff.1 hfound
    have hentries : ∀ e ∈ found, ∃ s, e.1 = .text s ∧ FitsRef reg value e.2 := by
      intro e he
      obtain ⟨p, -, s, -, hp⟩ := exists_of_mem_forall₂ hds he
      obtain ⟨k, hk, hp⟩ := bind_ok_iff.1 hp
      obtain ⟨v, hv, hp⟩ := bind_ok_iff.1 hp
      cases hp
      exact ⟨s, hkey key value s k _ rfl hk, hread value List.mem_cons_self _ _ _ hv⟩
    obtain ⟨entries, heq, hsorted, hvalues⟩ := exists_foldl_insertEntry hentries
      (show KeysSorted [] from .nil) (by simp)
    rw [show textEntries [] = [] from rfl] at heq
    rw [heq]
    exact .map hsorted hvalues
  | enum e =>
    obtain ⟨s, -, rfl⟩ := map_ok_iff.1 h
    exact .enum e s
  | object o =>
    refine fits_of_readObject hplain (fun field hfield => ?_) h
    exact hread _ (List.mem_map_of_mem hfield)
  | union u =>
    refine fits_of_readUnion (fun m hm => ?_) h
    exact hread _ (List.mem_map_of_mem hm)

/-- Null is read from nothing else. -/
lemma isNull_of_complete {d : Draft} {limit : ℕ} (h : d.complete limit = .ok .null) :
    isNull d = true := by
  cases d with
  | null => rfl
  | num n | str n => cases n <;> cases h
  | arr items stop =>
    obtain ⟨-, -, xs, -, h⟩ := Draft.complete_arr_ok_iff.1 h
    cases h
  | obj fields stop =>
    obtain ⟨-, -, xs, -, h⟩ := Draft.complete_obj_ok_iff.1 h
    cases h
  | _ => cases h

/-- Whatever is read fits, and only null is written as null. -/
theorem fits_of_decodeForm {reg : Registry} {bases : List Base} (hplain : Plain reg bases)
    {limit : ℕ} {source : Source} {n : ℕ} {b : Base} (hb : b ∈ bases) {d : Draft} {x : Value}
    (h : decodeForm reg limit source ⟨n, b⟩ d = .ok x) :
    Fits reg ⟨n, b⟩ x ∧ (isNull d = false → encodeBase reg b x ≠ .null) := by
  induction limit generalizing source n b d x with
  | zero => cases h
  | succ limit ih =>
    induction n generalizing x with
    | zero =>
      rw [decodeForm_base limit.succ_pos] at h
      have hfits : Fits reg ⟨0, b⟩ x := by
        refine fits_of_readBase (hplain.isPlain b hb) ?_ (fun t ht source d v hv f hf => ?_) h
        · rintro key value s k source rfl hk
          exact ((inside_keyDraft_ok_iff (hplain.isPlain _ hb)).1 hk).2
        · obtain ⟨f', hf', hbase⟩ := hplain.exists_form b hb t ht
          obtain rfl := Option.some.inj (hf.symm.trans hf')
          simp only [inside, decode, hf] at hv
          exact (ih hbase hv).1
      refine ⟨hfits, fun hd hnull => ?_⟩
      obtain ⟨rfl, rfl⟩ := hfits.eq_any_of_null hnull
      obtain ⟨j, hj, h⟩ := map_ok_iff.1 h
      cases h
      simp [isNull_of_complete hj] at hd
    | succ n ihn =>
      cases hd : isNull d with
      | true =>
        cases d <;> cases hd
        rw [decodeForm_null limit.succ_pos] at h
        cases h
        exact ⟨.absent n b, by simp⟩
      | false =>
        rw [decodeForm_present limit.succ_pos hd] at h
        obtain ⟨v, hv, rfl⟩ := map_ok_iff.1 h
        obtain ⟨hfits, hnull⟩ := ihn hv
        exact ⟨.present hfits (hnull hd), fun _ => by rw [encodeBase]; exact hnull hd⟩

end WireContract.Wire
