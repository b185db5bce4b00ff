import WireContract.Proofs.JsonText
import WireContract.Proofs.RoundTrip
import WireContract.Sample.Canvas

/-!
# Unions read back from values and from texts

A value of a union can be written as a value and as a text.  From the value it is read back exactly
if no union inside it holds an undeclared member whose tag is the key of the tag.  From the text it
is read back exactly if besides the text does not nest too deep and each number in it is read as
itself.

A number that is read as another one changes the value.  `Value.mapNumbers` is the value changed so;
it fits too, and it is written as the changed text says (`Fits.mapNumbers`), so what is read from
the text is known from the round trip of the changed value.
-/

namespace WireContract.Wire

open Json Schema Outcome

/-! ## Numbers replaced inside a value -/

namespace Value

/-- The value of a number. -/
def ofNumber : Number → Value
  | .int n => .int n
  | .double x => .double x

mutual

/-- The value with each number replaced. -/
def mapNumbers (g : Number → Number) : Value → Value
  | .int n => ofNumber (g (.int n))
  | .double x => ofNumber (g (.double x))
  | .any v => .any (v.mapNumbers g)
  | .present v => .present (mapNumbers g v)
  | .list items => .list (mapNumbersItems g items)
  | .map entries => .map (mapNumbersEntries g entries)
  | .record values => .record (mapNumbersItems g values)
  | .member tag v => .member tag (mapNumbers g v)
  | .unknownMember tag v => .unknownMember tag (v.mapNumbers g)
  | v => v

/-- The values with each number replaced. -/
def mapNumbersItems (g : Number → Number) : List Value → List Value
  | [] => []
  | v :: vs => mapNumbers g v :: mapNumbersItems g vs

/-- The entries with each number in their values replaced. -/
def mapNumbersEntries (g : Number → Number) : List (Value × Value) → List (Value × Value)
  | [] => []
  | (k, v) :: rest => (k, mapNumbers g v) :: mapNumbersEntries g rest

end

@[simp] lemma mapNumbersItems_eq_map (g : Number → Number) (items : List Value) :
    mapNumbersItems g items = items.map (mapNumbers g) := by
  induction items with
  | nil => rfl
  | cons v vs ih => rw [mapNumbersItems, ih, List.map_cons]

@[simp] lemma mapNumbersEntries_textEntries (g : Number → Number)
    (entries : List (String × Value)) :
    mapNumbersEntries g (textEntries entries) =
      textEntries (entries.map fun e => (e.1, mapNumbers g e.2)) := by
  induction entries with
  | nil => rfl
  | cons e rest ih => exact congrArg (List.cons _) ih

lemma mapNumbers_ofEnumText (g : Number → Number) (e : Enum) (s : String) :
    mapNumbers g (ofEnumText e s) = ofEnumText e s := by
  unfold ofEnumText
  dsimp only
  split <;> rfl

end Value

/-- A replacement that keeps the integers of 64 bits and gives doubles for doubles. -/
structure KeepsKinds (g : Number → Number) : Prop where
  int : ∀ n : ℤ, -9223372036854775808 ≤ n → n ≤ 9223372036854775807 → g (.int n) = .int n
  double : ∀ x, ∃ y, g (.double x) = .double y

section Replaced

variable {reg : Registry} {g : Number → Number}

lemma isOmitted_mapNumbers (t : TypeRef) (v : Value) :
    isOmitted reg t (v.mapNumbers g) = isOmitted reg t v := by
  cases v with
  | int n => unfold Value.mapNumbers; cases g (.int n) <;> rfl
  | double x => unfold Value.mapNumbers; cases g (.double x) <;> rfl
  | _ => rfl

lemma writtenFields_mapNumbers (fields : List Field) (values : List Value) :
    writtenFields reg fields (values.map (Value.mapNumbers g)) =
      (writtenFields reg fields values).map fun p => (p.1, p.2.mapNumbers g) := by
  rw [writtenFields, writtenFields, List.zip_map_right, List.filter_map]
  refine congrArg (List.map _) (List.filter_congr fun p _ => ?_)
  exact congrArg not (isOmitted_mapNumbers p.1.type p.2)

lemma KeepsKinds.eq_int (hg : KeepsKinds g) {p : Primitive} {least greatest n : ℤ}
    (hp : intBounds p = some (least, greatest)) (hleast : least ≤ n) (hgreatest : n ≤ greatest) :
    g (.int n) = .int n := by
  obtain ⟨-, rfl, rfl⟩ | ⟨-, rfl, rfl⟩ := intBounds_eq_some_iff.1 hp
  · exact hg.int n (by omega) (by omega)
  · exact hg.int n hleast hgreatest

lemma mapNumbers_ne_null {j : Json} (h : j ≠ .null) : j.mapNumbers g ≠ .null := by
  cases j with
  | null => exact absurd rfl h
  | _ => simp [Json.mapNumbers]

/-- The value fits with its numbers replaced, and what is written for it is what was written, with
its numbers replaced. -/
def Replaces (reg : Registry) (g : Number → Number) (f : Form) (x : Value) : Prop :=
  Fits reg f (x.mapNumbers g) ∧
    encodeBase reg f.base (x.mapNumbers g) = (encodeBase reg f.base x).mapNumbers g

/-- The same of a value of a reference. -/
def ReplacesRef (reg : Registry) (g : Number → Number) (t : TypeRef) (v : Value) : Prop :=
  FitsRef reg t (v.mapNumbers g) ∧ encode reg t (v.mapNumbers g) = (encode reg t v).mapNumbers g

/-- What holds of a value of the form of a reference holds of it as a value of the reference. -/
lemma Replaces.ref {t : TypeRef} {f : Form} {v : Value} (h : Replaces reg g f v)
    (hf : form? reg t = some f) : ReplacesRef reg g t v := by
  simp only [ReplacesRef, encode, baseOf, hf]
  refine ⟨fun f' hf' => ?_, h.2⟩
  obtain rfl := Option.some.inj (hf.symm.trans hf')
  exact h.1

lemma replaces_list {item : TypeRef} {items : List Value}
    (h : ∀ v ∈ items, ReplacesRef reg g item v) : Replaces reg g ⟨0, .list item⟩ (.list items) := by
  simp only [Replaces, Value.mapNumbers, Value.mapNumbersItems_eq_map]
  refine ⟨.list fun w hw => ?_, ?_⟩
  · obtain ⟨v, hv, rfl⟩ := List.mem_map.1 hw
    exact (h v hv).1
  · rw [encodeBase, encodeBase, Json.mapNumbers, encodeItems_eq_map, encodeItems_eq_map,
      mapNumbersItems_eq_map, List.map_map, List.map_map]
    exact congrArg Json.arr (List.map_congr_left fun v hv => (h v hv).2)

lemma replaces_map {key value : TypeRef} {entries : List (String × Value)}
    (hsorted : KeysSorted entries)
    (h : ∀ e ∈ entries, ReplacesRef reg g value e.2) :
    Replaces reg g ⟨0, .map key value⟩ (.map (textEntries entries)) := by
  simp only [Replaces, Value.mapNumbers, Value.mapNumbersEntries_textEntries]
  refine ⟨.map (List.pairwise_map.2 hsorted) fun e he => ?_, ?_⟩
  · obtain ⟨e', he', rfl⟩ := List.mem_map.1 he
    exact (h e' he').1
  · rw [encodeBase, encodeBase, Json.mapNumbers, encodeEntries_eq_map, encodeEntries_eq_map,
      mapNumbersFields_eq_map, textEntries, textEntries, List.map_map, List.map_map,
      List.map_map, List.map_map]
    refine congrArg Json.obj (List.map_congr_left fun e he => ?_)
    exact congrArg (Prod.mk e.1) (h e he).2

/-- A record is written without the fields that are left out, and these stay the same. -/
lemma replaces_record {o : Object} {values : List Value}
    (hlength : values.length = o.fields.length)
    (h : ∀ p ∈ o.fields.zip values, ReplacesRef reg g p.1.type p.2) :
    Replaces reg g ⟨0, .object o⟩ (.record values) := by
  simp only [Replaces, Value.mapNumbers, Value.mapNumbersItems_eq_map]
  refine ⟨.record (by rw [List.length_map, hlength]) fun q hq => ?_, ?_⟩
  · rw [List.zip_map_right] at hq
    obtain ⟨p, hp, rfl⟩ := List.mem_map.1 hq
    exact (h p hp).1
  · rw [encodeBase, encodeBase, Json.mapNumbers, encodeFields_eq_map, encodeFields_eq_map,
      mapNumbersFields_eq_map, writtenFields_mapNumbers, List.map_map, List.map_map]
    refine congrArg Json.obj (List.map_congr_left fun p hp => ?_)
    exact congrArg (Prod.mk p.1.name) (h p (mem_zip_of_written hp)).2

lemma replaces_member {u : Union} {tag : String} {declared : Member} {v : Value}
    (hfind : u.members.find? (·.tag == tag) = some declared)
    (h : ReplacesRef reg g declared.type v) :
    Replaces reg g ⟨0, .union u⟩ (.member tag v) := by
  refine ⟨.member hfind h.1, ?_⟩
  rw [Value.mapNumbers, encodeBase, encodeBase, memberBase, hfind]
  simp only [Tagged.toJson, Json.mapNumbers, mapNumbersFields_eq_map, List.map_cons, List.map_nil]
  rw [← encode, ← encode, h.2]

end Replaced

/-- A fitting value fits when its numbers are replaced, and what is written for it is written with
its numbers replaced. -/
theorem Fits.mapNumbers {reg : Registry} {bases : List Base} (hplain : Plain reg bases)
    {g : Number → Number} (hg : KeepsKinds g) {f : Form} {x : Value} (hfits : Fits reg f x)
    (hb : f.base ∈ bases) :
    Fits reg f (x.mapNumbers g) ∧
      encodeBase reg f.base (x.mapNumbers g) = (encodeBase reg f.base x).mapNumbers g := by
  -- The two parts go together: a present value must not be written as null, and that it is not is
  -- known of what was written.
  change Replaces reg g f x
  induction hfits with
  | absent n b => exact ⟨.absent n b, by simp [Value.mapNumbers, encodeBase, Json.mapNumbers]⟩
  | @present n b v hv hnull ih =>
    obtain ⟨hfits, hencode⟩ := ih hb
    simp only [Replaces, Value.mapNumbers, encodeBase]
    refine ⟨.present hfits ?_, hencode⟩
    rw [hencode]
    exact mapNumbers_ne_null hnull
  | text hp s => exact ⟨.text hp s, by simp [Value.mapNumbers, encodeBase, Json.mapNumbers]⟩
  -- An integer in the bounds of its type is kept; a double is replaced by any other.
  | int hp hleast hgreatest =>
    have hn := hg.eq_int hp hleast hgreatest
    simp only [Replaces, Value.mapNumbers, hn, Value.ofNumber, encodeBase, Json.mapNumbers,
      and_true]
    exact .int hp hleast hgreatest
  | double x =>
    obtain ⟨y, hy⟩ := hg.double x
    simp only [Replaces, Value.mapNumbers, hy, Value.ofNumber, encodeBase, Json.mapNumbers,
      and_true]
    exact .double y
  | bool b => exact ⟨.bool b, by simp [Value.mapNumbers, encodeBase, Json.mapNumbers]⟩
  | instant t => exact ⟨.instant t, by simp [Value.mapNumbers, encodeBase, Json.mapNumbers]⟩
  | uuid u => exact ⟨.uuid u, by simp [Value.mapNumbers, encodeBase, Json.mapNumbers]⟩
  | any hv =>
    refine ⟨.any ?_, by simp [Value.mapNumbers, encodeBase]⟩
    rw [distinct_mapNumbers, hv]
  | bytes bs => exact ⟨.bytes bs, by simp [Value.mapNumbers, encodeBase, Json.mapNumbers]⟩
  | enum e s =>
    rw [Replaces, Value.mapNumbers_ofEnumText, encodeBase_ofEnumText]
    exact ⟨.enum e s, rfl⟩
  -- The parts of a value have forms whose bases are in the set again.
  | @list item items h ih =>
    obtain ⟨f, hf, hbase⟩ := hplain.exists_form _ hb item List.mem_cons_self
    exact replaces_list fun v hv => (ih v hv f hf hbase).ref hf
  | @map key value entries hsorted h ih =>
    obtain ⟨f, hf, hbase⟩ := hplain.exists_form _ hb value List.mem_cons_self
    exact replaces_map hsorted fun e he => (ih e he f hf hbase).ref hf
  | @record o values hlength h ih =>
    refine replaces_record hlength fun p hp => ?_
    obtain ⟨f, hf, hbase⟩ := hplain.exists_form _ hb p.1.type
      (List.mem_map_of_mem (List.of_mem_zip hp).1)
    exact (ih p hp f hf hbase).ref hf
  | @member u tag declared v hfind h ih =>
    obtain ⟨f, hf, hbase⟩ := hplain.exists_form _ hb declared.type
      (List.mem_map_of_mem (List.mem_of_find?_eq_some hfind))
    exact replaces_member hfind ((ih f hf hbase).ref hf)
  | unknownMember hfind hv htag =>
    refine ⟨.unknownMember hfind ?_ fun heq => ?_, ?_⟩
    · rw [distinct_mapNumbers, hv]
    · rw [htag heq]
      rfl
    · simp [Value.mapNumbers, encodeBase, Tagged.toJson, Json.mapNumbers]

/-! ## Numbers read from their texts -/

/-- What becomes of a number when its text is read.  A number whose text is not read stays. -/
def settled (n : Number) : Number :=
  match n.reread with
  | .ok m => m
  | .error _ => n

lemma settled_eq {n m : Number} (h : n.reread = .ok m) : settled n = m := by
  rw [settled, h]

lemma keepsKinds_settled : KeepsKinds settled where
  int n hleast hgreatest := settled_eq (Number.reread_int hleast (by omega))
  double x := by
    unfold settled
    split
    case h_1 m h => exact Number.exists_reread_double h
    case h_2 => exact ⟨x, rfl⟩

/-- The text of the number is read as the number. -/
def ReadsBack (n : Number) : Prop :=
  n.reread = .ok n

lemma toOption_reread_iff {n : Number} : n.reread.toOption = some n ↔ ReadsBack n := by
  rw [ReadsBack]
  cases n.reread <;> simp [Except.toOption]

instance : DecidablePred ReadsBack := fun _ => decidable_of_iff _ toOption_reread_iff

/-- The reader is off by one in the last place of the double 7484831995134673. -/
example : ¬ ReadsBack (.double ⟨false, 7484831995134673, 1074⟩) := by decide +kernel

/-- Each number is read back exactly if each is read and none changes. -/
lemma allNumbers_readsBack_iff {j : Json} :
    AllNumbers ReadsBack j ↔
      AllNumbers (fun n => ∃ m, n.reread = .ok m) j ∧ j.mapNumbers settled = j := by
  rw [mapNumbers_eq_self_iff]
  induction j using Json.induct with
  | null => exact iff_of_true .null ⟨.null, .null⟩
  | bool b => exact iff_of_true (.bool b) ⟨.bool b, .bool b⟩
  | str s => exact iff_of_true (.str s) ⟨.str s, .str s⟩
  | num n =>
    simp only [allNumbers_num_iff]
    constructor
    · intro h
      exact ⟨⟨n, h⟩, settled_eq h⟩
    · rintro ⟨⟨m, hm⟩, h⟩
      rw [ReadsBack, hm, ← settled_eq hm, h]
  | arr items ih =>
    simp only [allNumbers_arr_iff, ← forall₂_and]
    exact forall₂_congr ih
  | obj fields ih =>
    simp only [allNumbers_obj_iff, ← forall₂_and]
    exact forall₂_congr ih

/-! ## Unions read back -/

section Unions

variable {reg : Registry} {bases : List Base} {t : TypeRef} {u : Union} {x : Value}

/-- A union is read from a text as from the value that the text stands for. -/
lemma readUnion_draftWith_iff {inside : ReadInside} {r : Reader} (hlimit : 0 < r.limit) {j : Json}
    {y : Value} :
    readUnion inside r u (draftWith Number.reread j) = .ok y ↔
      j.depth < r.limit ∧ AllNumbers (fun n => ∃ m, n.reread = .ok m) j ∧
        readUnion inside r u (Draft.ofJson (j.mapNumbers settled).distinct) = .ok y := by
  have hdepth : j.depth < r.limit → (j.mapNumbers settled).distinct.depth < r.limit := by
    rw [← depth_mapNumbers settled j]
    exact Nat.lt_of_le_of_lt (depth_distinct_le _)
  simp only [readUnion, bind_ok_iff, Tagged.read_ok_iff, Draft.complete_ofJson_iff hlimit,
    Draft.complete_draftWith_iff (fun _ _ => settled_eq) hlimit, distinct_distinct]
  constructor
  · rintro ⟨m, ⟨fields, ⟨hj, hnumbers, hfields⟩, hm⟩, h⟩
    exact ⟨hj, hnumbers, m, ⟨fields, ⟨hdepth hj, hfields⟩, hm⟩, h⟩
  · rintro ⟨hj, hnumbers, m, ⟨fields, ⟨-, hfields⟩, hm⟩, h⟩
    exact ⟨m, ⟨fields, ⟨hj, hnumbers, hfields⟩, hm⟩, h⟩

/-- Values that are written alike are equal, if no union inside one of them holds an undeclared
member whose tag is the key of the tag. -/
lemma Fits.eq_of_encode_eq (hplain : Plain reg bases) {f : Form} (hb : f.base ∈ bases) {y : Value}
    (hx : Fits reg f x) (hknown : ¬ x.HasUnknown tagKey) (hy : Fits reg f y)
    (h : encodeBase reg f.base y = encodeBase reg f.base x) : x = y := by
  have hread :
      decodeForm reg _ .value f (Draft.ofJson (encodeBase reg f.base x).distinct) = .ok x :=
    (decodeForm_encode_iff hplain hx hb (Nat.lt_succ_self _)).2 ⟨hknown, rfl⟩
  rw [← h] at hread
  exact ((decodeForm_encode_iff hplain hy hb (Nat.lt_succ_self _)).1 hread).2

/-- What is read of a union fits. -/
lemma fits_of_decode (hplain : Plain reg bases) (hform : form? reg t = some ⟨0, .union u⟩)
    (hb : Base.union u ∈ bases) {r : Reader} {d : Draft} (h : decode reg t r d = .ok x) :
    Fits reg ⟨0, .union u⟩ x := by
  rw [decode, hform] at h
  exact (fits_of_decodeForm hplain hb h).1

/-- A union is read back from the value written for it exactly if no union inside it holds an
undeclared member whose tag is the key of the tag. -/
theorem readValue_encode_iff (hplain : Plain reg bases) (hform : form? reg t = some ⟨0, .union u⟩)
    (hb : Base.union u ∈ bases) (hfits : Fits reg ⟨0, .union u⟩ x) :
    readValue (decode reg t) (encode reg t x).distinct = .ok x ↔ ¬ x.HasUnknown tagKey := by
  simp only [readValue, decode, encode, baseOf, hform]
  rw [decodeForm_encode_iff hplain hfits hb (Nat.lt_succ_self _)]
  exact and_iff_left rfl

/-- What is read from the text written for a union: the value with its numbers as they are read. -/
lemma readText_encode_ok_iff (hplain : Plain reg bases) (hform : form? reg t = some ⟨0, .union u⟩)
    (hb : Base.union u ∈ bases) (hfits : Fits reg ⟨0, .union u⟩ x) {y : Value} :
    readText (decode reg t) (encode reg t x).text = .ok y ↔
      (encode reg t x).depth < nestingLimit ∧
        AllNumbers (fun n => ∃ m, n.reread = .ok m) (encode reg t x) ∧
          ¬ (x.mapNumbers settled).HasUnknown tagKey ∧ y = x.mapNumbers settled := by
  obtain ⟨hfits', hencode⟩ := hfits.mapNumbers hplain keepsKinds_settled hb
  have hstep : ∀ d, decodeForm reg nestingLimit .text ⟨0, .union u⟩ d =
      readUnion (inside reg (nestingLimit - 1)) ⟨.text, nestingLimit⟩ u d :=
    decodeForm_base (by decide) (.union u)
  simp only [readText_text_iff, decode, encode, baseOf, hform, hstep]
  rw [readUnion_draftWith_iff (by decide)]
  refine and_congr_right fun hdepth => and_congr_right fun _ => ?_
  rw [← hstep, ← hencode, decodeForm_encode_iff hplain hfits' hb]
  refine Nat.lt_of_le_of_lt (depth_distinct_le _) ?_
  rw [hencode, depth_mapNumbers]
  exact hdepth

/-- A union is read back from the text written for it exactly if besides the text does not nest too
deep and its numbers are read back. -/
theorem readText_encode_iff (hplain : Plain reg bases) (hform : form? reg t = some ⟨0, .union u⟩)
    (hb : Base.union u ∈ bases) (hfits : Fits reg ⟨0, .union u⟩ x) :
    readText (decode reg t) (encode reg t x).text = .ok x ↔
      ¬ x.HasUnknown tagKey ∧ (encode reg t x).depth < nestingLimit ∧
        AllNumbers ReadsBack (encode reg t x) := by
  obtain ⟨hfits', hencode⟩ := hfits.mapNumbers hplain keepsKinds_settled hb
  replace hencode : encode reg t (x.mapNumbers settled) = (encode reg t x).mapNumbers settled := by
    simp only [encode, baseOf, hform]
    exact hencode
  constructor
  · intro h
    obtain ⟨hdepth, hread, hknown, hx⟩ := (readText_encode_ok_iff hplain hform hb hfits).1 h
    rw [← hx] at hknown hencode
    exact ⟨hknown, hdepth, allNumbers_readsBack_iff.2 ⟨hread, hencode.symm⟩⟩
  · rintro ⟨hknown, hdepth, hback⟩
    obtain ⟨hread, hsame⟩ := allNumbers_readsBack_iff.1 hback
    -- with its numbers as they are read the value is written as before, so it is the same value
    have hx := hfits.eq_of_encode_eq hplain hb hknown hfits' (by
      simp only [encode, baseOf, hform] at hencode hsame
      rw [hencode, hsame])
    exact (readText_encode_ok_iff hplain hform hb hfits).2 ⟨hdepth, hread, by rwa [← hx], hx⟩

end Unions

end WireContract.Wire

/-! ## The unions of the canvas -/

namespace WireContract.Sample.Canvas

open Json Schema Wire Outcome

/-- The bases of what is inside a shape or an expression. -/
def unionBases : List Base :=
  [.union shape, .union expr, .object circle, .enum color, .list string,
    .map string (.primitive .integer), .binary, .primitive .double, .primitive .string,
    .primitive .integer, .primitive .safelong, .primitive .datetime, .primitive .uuid]

lemma plain_unionBases : Plain registry unionBases where
  exists_form := by
    have h : ∀ b ∈ unionBases, ∀ t ∈ b.parts, ∃ f ∈ form? registry t, f.base ∈ unionBases := by
      decide +kernel
    exact h
  isPlain := by decide +kernel

lemma exists_union {name : String} (hname : name = "Shape" ∨ name = "Expr") :
    ∃ u, form? registry (.declared (shapes name)) = some ⟨0, .union u⟩ ∧
      Base.union u ∈ unionBases := by
  obtain rfl | rfl := hname
  · exact ⟨shape, by decide +kernel, by decide +kernel⟩
  · exact ⟨expr, by decide +kernel, by decide +kernel⟩

/-- A shape or expression that was read from any value or text is read back from the value written
for it exactly if no union inside it holds an undeclared member with the tag `type`; and it is read
back from the text written for it exactly if besides the text nests less deep than the limit and
each number in it is read as itself. -/
theorem union_reads_back_iff {name : String} (hname : name = "Shape" ∨ name = "Expr") {x : Value}
    (hx : (∃ v, readValue (decode registry (.declared (shapes name))) v = .ok x) ∨
      ∃ s, readText (decode registry (.declared (shapes name))) s = .ok x) :
    (readValue (decode registry (.declared (shapes name)))
        (encode registry (.declared (shapes name)) x).distinct = .ok x ↔
      ¬ x.HasUnknown "type") ∧
    (readText (decode registry (.declared (shapes name)))
        (encode registry (.declared (shapes name)) x).text = .ok x ↔
      ¬ x.HasUnknown "type" ∧
        (encode registry (.declared (shapes name)) x).depth < nestingLimit ∧
        AllNumbers ReadsBack (encode registry (.declared (shapes name)) x)) := by
  obtain ⟨u, hform, hb⟩ := exists_union hname
  have hfits : Fits registry ⟨0, .union u⟩ x := by
    obtain ⟨v, hv⟩ | ⟨s, hs⟩ := hx
    · exact fits_of_decode plain_unionBases hform hb hv
    · obtain ⟨y, hy, hs⟩ := bind_ok_iff.1 hs
      split at hs
      · cases hs
        exact fits_of_decode plain_unionBases hform hb hy
      · cases hs
  exact ⟨readValue_encode_iff plain_unionBases hform hb hfits,
    readText_encode_iff plain_unionBases hform hb hfits⟩

/-- The parts of an expression of a kind that is not declared: a list with an integer, and a record
with the double 2.5. -/
def power : Json :=
  .arr [.num (.int (-3)), .obj [("base", .num (.double ⟨false, 5629499534213120, 1023⟩))]]

/-- The negation of that expression. -/
def negatedPower : Json :=
  .obj [("type", .str "negate"),
    ("negate", .obj [("type", .str "power"), ("power", power)])]

theorem union_reads_back_iff_negatedPower :
    ∃ x, readValue (decode registry (.declared (shapes "Expr"))) negatedPower = .ok x ∧
      readValue (decode registry (.declared (shapes "Expr")))
        (encode registry (.declared (shapes "Expr")) x).distinct = .ok x ∧
      readText (decode registry (.declared (shapes "Expr")))
        (encode registry (.declared (shapes "Expr")) x).text = .ok x := by
  have hread : readValue (decode registry (.declared (shapes "Expr"))) negatedPower =
      .ok (.member "negate" (.unknownMember "power" power)) := rfl
  have hwritten : encode registry (.declared (shapes "Expr"))
      (.member "negate" (.unknownMember "power" power)) = negatedPower := rfl
  obtain ⟨hvalue, htext⟩ := union_reads_back_iff (Or.inr rfl) (Or.inl ⟨_, hread⟩)
  have hknown : ¬ (Value.member "negate" (.unknownMember "power" power)).HasUnknown "type" := by
    rw [Value.hasUnknown_member_iff, Value.hasUnknown_unknownMember_iff]
    decide
  have hnumbers : AllNumbers ReadsBack negatedPower := by
    have hint : ReadsBack (.int (-3)) := Number.reread_int (by decide) (by decide)
    have hdouble : ReadsBack (.double ⟨false, 5629499534213120, 1023⟩) := by decide +kernel
    simp [negatedPower, power, AllNumbers.str, hint, hdouble]
  refine ⟨_, hread, hvalue.2 hknown, htext.2 ⟨hknown, ?_, ?_⟩⟩
  · rw [hwritten]
    decide
  · rw [hwritten]
    exact hnumbers

/-- An undeclared member with the tag `type` is read, but neither from the value nor from the text
written for it. -/
theorem shape_with_tag_type_lost :
    readValue (decode registry (.declared (shapes "Shape"))) (.obj [("type", .str "type")]) =
        .ok (.unknownMember "type" .null) ∧
      readValue (decode registry (.declared (shapes "Shape")))
        (encode registry (.declared (shapes "Shape")) (.unknownMember "type" .null)).distinct ≠
          .ok (.unknownMember "type" .null) ∧
      readText (decode registry (.declared (shapes "Shape")))
        (encode registry (.declared (shapes "Shape")) (.unknownMember "type" .null)).text ≠
          .ok (.unknownMember "type" .null) := by
  have hread : readValue (decode registry (.declared (shapes "Shape")))
      (.obj [("type", .str "type")]) = .ok (.unknownMember "type" .null) := rfl
  obtain ⟨u, hform, hb⟩ := exists_union (Or.inl rfl)
  have hfits := fits_of_decode plain_unionBases hform hb hread
  have hunknown : (Value.unknownMember "type" .null).HasUnknown "type" :=
    Value.hasUnknown_unknownMember_iff.2 rfl
  refine ⟨hread, fun h => ?_, fun h => ?_⟩
  · exact (readValue_encode_iff plain_unionBases hform hb hfits).1 h hunknown
  · exact ((readText_encode_iff plain_unionBases hform hb hfits).1 h).1 hunknown

end WireContract.Sample.Canvas
