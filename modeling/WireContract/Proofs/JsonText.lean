import Mathlib.Tactic.Common
import WireContract.Json.Reader
import WireContract.Proofs.JsonWhole
import WireContract.Proofs.NumberText

/-!
# The text of a value is read as the value

`ofText_text` says what the reader makes of the text of a value: the draft of the value without
faults, except that each number is what its own text is read as.  It holds of every value, with
repeated keys and at any depth; the limits on nesting come later, when a draft is taken as a whole.

Strings go through one character at a time, each written as itself or as an escape.
-/

namespace WireContract.Json

namespace Draft

/-! ## Strings -/

lemma hexValue?_hexDigit {n : ℕ} (h : n < 16) : hexValue? (hexDigit n) = some n := by
  revert n
  decide

/-- An escape for a character below the blank. -/
lemma hexQuad_control {c : Char} (h : c.toNat < 0x20) (rest : List Char) :
    hexQuad ('0' :: '0' :: hexDigit (c.toNat / 16) :: hexDigit (c.toNat % 16) :: rest) =
      .ok (c.toNat, rest) := by
  have hzero : hexValue? '0' = some 0 := by decide
  simp only [hexQuad, hzero, hexValue?_hexDigit (show c.toNat / 16 < 16 by omega),
    hexValue?_hexDigit (show c.toNat % 16 < 16 by omega)]
  congr 2
  omega

lemma string_short {e c : Char} (he : e ≠ 'u') (h : shortEscape? e = some c) (fuel : ℕ)
    (acc rest : List Char) :
    string (fuel + 1) acc none ('\\' :: e :: rest) = string fuel (c :: acc) none rest := by
  rw [string]
  · simp only [h]
  · exact he

lemma string_plain {c : Char} (hquote : c ≠ '"') (hslash : c ≠ '\\') (h : ¬ c.toNat < 0x20)
    (fuel : ℕ) (acc rest : List Char) :
    string (fuel + 1) acc none (c :: rest) = string fuel (c :: acc) none rest := by
  rw [string]
  · simp only [h, if_false]
  · exact hquote
  · exact fun _ hc => absurd hc hslash
  · exact fun _ _ hc => absurd hc hslash
  · exact fun hc => absurd hc hslash

lemma string_control {c : Char} (h : c.toNat < 0x20) (fuel : ℕ) (acc rest : List Char) :
    string (fuel + 1) acc none ('\\' :: 'u' :: '0' :: '0' :: hexDigit (c.toNat / 16) ::
      hexDigit (c.toNat % 16) :: rest) = string fuel (c :: acc) none rest := by
  have hhigh : isHighSurrogate c.toNat = false := by
    simp only [isHighSurrogate, Bool.and_eq_false_iff, decide_eq_false_iff_not]
    omega
  have hlow : isLowSurrogate c.toNat = false := by
    simp only [isLowSurrogate, Bool.and_eq_false_iff, decide_eq_false_iff_not]
    omega
  rw [string, hexQuad_control h]
  simp only [hhigh, hlow, Bool.false_eq_true, if_false, Char.ofNat_toNat]

/-- Each character is read back from its form inside a string. -/
lemma string_escape (fuel : ℕ) (acc : List Char) (c : Char) (rest : List Char) :
    string (fuel + 1) acc none (escape c ++ rest) = string fuel (c :: acc) none rest := by
  unfold escape
  split_ifs with h₁ h₂ h₃ h₄ h₅ h₆ h₇ h₈
  · rw [beq_iff_eq.1 h₁]
    exact string_short (by decide) (by decide) fuel acc rest
  · rw [beq_iff_eq.1 h₂]
    exact string_short (by decide) (by decide) fuel acc rest
  · rw [beq_iff_eq.1 h₃]
    exact string_short (by decide) (by decide) fuel acc rest
  · rw [beq_iff_eq.1 h₄]
    exact string_short (by decide) (by decide) fuel acc rest
  · rw [beq_iff_eq.1 h₅]
    exact string_short (by decide) (by decide) fuel acc rest
  · rw [beq_iff_eq.1 h₆]
    exact string_short (by decide) (by decide) fuel acc rest
  · rw [beq_iff_eq.1 h₇]
    exact string_short (by decide) (by decide) fuel acc rest
  · exact string_control h₈ fuel acc rest
  · exact string_plain (by simpa using h₁) (by simpa using h₂) h₈ fuel acc rest

lemma string_flatMap_escape {cs : List Char} {fuel : ℕ} (hfuel : cs.length < fuel)
    (acc rest : List Char) :
    string fuel acc none (cs.flatMap escape ++ '"' :: rest) =
      .more (.ok (String.ofList (acc.reverse ++ cs))) rest := by
  induction cs generalizing fuel acc with
  | nil =>
    obtain ⟨fuel, rfl⟩ := Nat.exists_eq_succ_of_ne_zero (Nat.ne_of_gt hfuel)
    simp [string]
  | cons c cs ih =>
    obtain ⟨fuel, rfl⟩ := Nat.exists_eq_succ_of_ne_zero (Nat.ne_of_gt (Nat.zero_lt_of_lt hfuel))
    rw [List.flatMap_cons, List.append_assoc, string_escape, ih (by simpa using hfuel)]
    simp

lemma length_le_flatMap_escape (cs : List Char) : cs.length ≤ (cs.flatMap escape).length := by
  induction cs with
  | nil => exact le_rfl
  | cons c cs ih =>
    have hpos : 0 < (escape c).length := by
      unfold escape
      split_ifs <;> simp
    rw [List.flatMap_cons, List.length_append, List.length_cons]
    omega

lemma toList_stringText (s : String) :
    (stringText s).toList = '"' :: (s.toList.flatMap escape ++ ['"']) := by
  rw [stringText, String.toList_ofList]

/-- A string is read back after its opening quote. -/
lemma string_stringText (s : String) (rest : List Char) :
    string (s.toList.flatMap escape ++ '"' :: rest).length.succ [] none
      (s.toList.flatMap escape ++ '"' :: rest) = .more (.ok s) rest := by
  have hle := length_le_flatMap_escape s.toList
  rw [string_flatMap_escape (by rw [List.length_append]; omega), List.reverse_nil, List.nil_append,
    String.ofList_toList]

/-! ## Values -/

lemma value_string (s : String) (fuel : ℕ) (rest : List Char) :
    value (fuel + 1) ((stringText s).toList ++ rest) = (.str (.ok s), some rest) := by
  rw [toList_stringText, List.cons_append, List.append_assoc, List.singleton_append, value,
    skipSpace_cons (by decide)]
  simp only
  rw [if_neg (by decide), if_neg (by decide), if_neg (by decide), if_neg (by decide),
    if_neg (by decide), if_pos (by decide), string_stringText]

lemma value_null (fuel : ℕ) (rest : List Char) :
    value (fuel + 1) ("null".toList ++ rest) = (.null, some rest) := by
  simp [value, skipSpace, isSpace, literal, Scan.toRead]

lemma value_bool (b : Bool) (fuel : ℕ) (rest : List Char) :
    value (fuel + 1) ((Json.bool b).text.toList ++ rest) = (.bool b, some rest) := by
  cases b <;> simp [text, value, skipSpace, isSpace, literal, Scan.toRead]

lemma toList_arr_text (items : List Json) :
    (Json.arr items).text.toList = '[' :: ((itemsText items).toList ++ [']']) := by
  rw [text, String.toList_append, String.toList_append]
  rfl

lemma toList_obj_text (fields : List (String × Json)) :
    (Json.obj fields).text.toList = '\x7b' :: ((fieldsText fields).toList ++ ['\x7d']) := by
  rw [text, String.toList_append, String.toList_append]
  rfl

/-- The text of a value begins neither with a blank nor with a closing bracket. -/
lemma exists_text_eq_cons (j : Json) :
    ∃ c cs, j.text.toList = c :: cs ∧ isSpace c = false ∧ c ≠ ']' := by
  cases j with
  | null => exact ⟨'n', _, rfl, by decide, by decide⟩
  | bool b => cases b <;> exact ⟨_, _, rfl, by decide, by decide⟩
  | num n =>
    obtain ⟨negative, m, hm, htext⟩ := n.exists_numeral
    rw [text, htext, signed]
    cases negative with
    | true => exact ⟨'-', _, rfl, by decide, by decide⟩
    | false =>
      obtain ⟨c, cs, hchars, hc⟩ := Numeral.exists_chars_eq_cons hm
      refine ⟨c, cs, hchars, isSpace_of_isDigit hc, ?_⟩
      rintro rfl
      cases hc
  | str s => exact ⟨'"', _, by rw [text, toList_stringText], by decide, by decide⟩
  | arr items => exact ⟨'[', _, toList_arr_text items, by decide, by decide⟩
  | obj fields => exact ⟨'\x7b', _, toList_obj_text fields, by decide, by decide⟩

/-- The text of the value is read as its draft, whatever follows that does not go on with a
number. -/
def ReadsText (j : Json) : Prop :=
  ∀ fuel rest, 2 * j.text.toList.length ≤ fuel → EndsNumeral rest →
    value fuel (j.text.toList ++ rest) = (draftWith Number.reread j, some rest)

lemma endsNumeral_cons {c : Char} (h : c.isDigit = false ∧ c ≠ '.' ∧ c ≠ 'e' ∧ c ≠ 'E')
    (cs : List Char) : EndsNumeral (c :: cs) := by
  rintro _ ⟨⟩
  exact h

lemma toList_itemsText_cons (x y : Json) (ys : List Json) :
    (itemsText (x :: y :: ys)).toList = x.text.toList ++ ',' :: (itemsText (y :: ys)).toList := by
  rw [itemsText, String.toList_append, String.toList_append, List.append_assoc]
  · rfl
  · simp

lemma exists_itemsText_eq_cons (x : Json) (xs : List Json) :
    ∃ c cs, (itemsText (x :: xs)).toList = c :: cs ∧ isSpace c = false ∧ c ≠ ']' := by
  obtain ⟨c, cs, htext, hc⟩ := exists_text_eq_cons x
  cases xs with
  | nil => exact ⟨c, cs, htext, hc⟩
  | cons y ys =>
    refine ⟨c, cs ++ ',' :: (itemsText (y :: ys)).toList, ?_, hc⟩
    rw [toList_itemsText_cons, htext, List.cons_append]

lemma items_itemsText {x : Json} {xs : List Json} (h : ∀ y ∈ x :: xs, ReadsText y) {fuel : ℕ}
    (hfuel : 2 * (itemsText (x :: xs)).toList.length + 1 ≤ fuel) (rest : List Char) :
    items fuel ((itemsText (x :: xs)).toList ++ ']' :: rest) =
      ((x :: xs).map (draftWith Number.reread), none, some rest) := by
  induction xs generalizing x fuel with
  | nil =>
    obtain ⟨fuel, rfl⟩ : ∃ n, fuel = n + 1 := ⟨fuel - 1, by omega⟩
    rw [itemsText] at hfuel ⊢
    rw [items, h x List.mem_cons_self fuel _ (by omega) (endsNumeral_cons (by decide) _)]
    simp only [skipSpace_cons (show isSpace ']' = false by decide)]
    rfl
  | cons y ys ih =>
    obtain ⟨fuel, rfl⟩ : ∃ n, fuel = n + 1 := ⟨fuel - 1, by omega⟩
    rw [toList_itemsText_cons] at hfuel ⊢
    rw [List.length_append, List.length_cons] at hfuel
    obtain ⟨hx, hys⟩ := List.forall_mem_cons.1 h
    obtain ⟨c, cs, hcons, hspace, hclose⟩ := exists_itemsText_eq_cons y ys
    have htail := ih hys (show 2 * (itemsText (y :: ys)).toList.length + 1 ≤ fuel by omega)
    rw [List.append_assoc, List.cons_append, items,
      hx fuel _ (by omega) (endsNumeral_cons (by decide) _)]
    rw [hcons, List.cons_append] at htail ⊢
    simp only [skipSpace_cons (show isSpace ',' = false by decide), skipSpace_cons hspace]
    split
    case h_1 heq => exact absurd (List.cons.inj heq).1 hclose
    case h_2 =>
      rw [htail]
      rfl

/-- A field as it is written. -/
def fieldChars (p : String × Json) : List Char :=
  (stringText p.1).toList ++ ':' :: p.2.text.toList

lemma toList_fieldsText_singleton (p : String × Json) :
    (fieldsText [p]).toList = fieldChars p := by
  rw [fieldsText, String.toList_append, String.toList_append, List.append_assoc]
  rfl

lemma toList_fieldsText_cons (p q : String × Json) (qs : List (String × Json)) :
    (fieldsText (p :: q :: qs)).toList = fieldChars p ++ ',' :: (fieldsText (q :: qs)).toList := by
  rw [fieldsText]
  · simp [fieldChars]
  · simp

lemma exists_fieldsText_eq_cons (p : String × Json) (ps : List (String × Json)) :
    ∃ cs, (fieldsText (p :: ps)).toList = '"' :: cs := by
  cases ps with
  | nil => exact ⟨_, by rw [toList_fieldsText_singleton, fieldChars, toList_stringText]; rfl⟩
  | cons q qs => exact ⟨_, by rw [toList_fieldsText_cons, fieldChars, toList_stringText]; rfl⟩

/-- One field is read, and what follows it is left. -/
lemma value_fieldChars {p : String × Json} (h : ReadsText p.2) (fuel : ℕ)
    (hfuel : 2 * (fieldChars p).length ≤ fuel) {rest : List Char} (hrest : EndsNumeral rest) :
    value fuel (p.2.text.toList ++ rest) = (draftWith Number.reread p.2, some rest) := by
  refine h fuel rest ?_ hrest
  rw [fieldChars, List.length_append, List.length_cons] at hfuel
  omega

lemma fields_fieldsText {p : String × Json} {ps : List (String × Json)}
    (h : ∀ q ∈ p :: ps, ReadsText q.2) {fuel : ℕ}
    (hfuel : 2 * (fieldsText (p :: ps)).toList.length + 1 ≤ fuel) (rest : List Char) :
    fields fuel ((fieldsText (p :: ps)).toList ++ '\x7d' :: rest) =
      ((p :: ps).map fun q => (.ok q.1, draftWith Number.reread q.2), none, some rest) := by
  induction ps generalizing p fuel with
  | nil =>
    obtain ⟨fuel, rfl⟩ : ∃ n, fuel = n + 1 := ⟨fuel - 1, by omega⟩
    rw [toList_fieldsText_singleton] at hfuel ⊢
    have hvalue := value_fieldChars (h p List.mem_cons_self) fuel (by omega)
      (endsNumeral_cons (c := '\x7d') (by decide) rest)
    rw [fieldChars, toList_stringText, fields]
    simp only [List.cons_append, List.append_assoc, List.nil_append,
      skipSpace_cons (show isSpace '"' = false by decide), string_stringText,
      skipSpace_cons (show isSpace ':' = false by decide), hvalue,
      skipSpace_cons (show isSpace '\x7d' = false by decide)]
    rfl
  | cons q qs ih =>
    obtain ⟨fuel, rfl⟩ : ∃ n, fuel = n + 1 := ⟨fuel - 1, by omega⟩
    rw [toList_fieldsText_cons] at hfuel ⊢
    rw [List.length_append, List.length_cons] at hfuel
    obtain ⟨hp, hqs⟩ := List.forall_mem_cons.1 h
    have htail := ih hqs (show 2 * (fieldsText (q :: qs)).toList.length + 1 ≤ fuel by omega)
    have hvalue := value_fieldChars hp fuel (by omega)
      (endsNumeral_cons (c := ',') (by decide) ((fieldsText (q :: qs)).toList ++ '\x7d' :: rest))
    rw [fieldChars, toList_stringText, fields]
    simp only [List.cons_append, List.append_assoc, List.nil_append,
      skipSpace_cons (show isSpace '"' = false by decide), string_stringText,
      skipSpace_cons (show isSpace ':' = false by decide), hvalue,
      skipSpace_cons (show isSpace ',' = false by decide), htail]
    rfl

lemma readsText_of_succ {j : Json}
    (h : ∀ fuel rest, 2 * j.text.toList.length ≤ fuel + 1 → EndsNumeral rest →
      value (fuel + 1) (j.text.toList ++ rest) = (draftWith Number.reread j, some rest)) :
    ReadsText j := by
  intro fuel rest hfuel hrest
  obtain ⟨c, cs, hcons, -⟩ := exists_text_eq_cons j
  obtain ⟨fuel, rfl⟩ : ∃ n, fuel = n + 1 :=
    ⟨fuel - 1, by rw [hcons, List.length_cons] at hfuel; omega⟩
  exact h fuel rest hfuel hrest

lemma readsText_arr {items : List Json} (h : ∀ x ∈ items, ReadsText x) :
    ReadsText (.arr items) := by
  refine readsText_of_succ fun fuel rest hfuel _ => ?_
  rw [toList_arr_text, List.length_cons, List.length_append] at hfuel
  rw [toList_arr_text, List.cons_append, List.append_assoc, List.singleton_append, value,
    skipSpace_cons (by decide), draftWith, draftItems_eq_map]
  simp only
  rw [if_neg (by decide), if_neg (by decide), if_neg (by decide), if_neg (by decide),
    if_neg (by decide), if_neg (by decide), if_pos (by decide)]
  cases items with
  | nil =>
    rw [itemsText, String.toList_empty, List.nil_append, skipSpace_cons (by decide)]
    rfl
  | cons x xs =>
    obtain ⟨c, cs, hcons, hspace, hclose⟩ := exists_itemsText_eq_cons x xs
    have hitems := items_itemsText h (show 2 * (itemsText (x :: xs)).toList.length + 1 ≤ fuel by
      omega) rest
    rw [hcons, List.cons_append] at hitems ⊢
    rw [skipSpace_cons hspace]
    split
    case h_1 heq => exact absurd (List.cons.inj heq).1 hclose
    case h_2 heq => cases heq
    case h_3 => rw [hitems]

lemma readsText_obj {fields : List (String × Json)} (h : ∀ p ∈ fields, ReadsText p.2) :
    ReadsText (.obj fields) := by
  refine readsText_of_succ fun fuel rest hfuel _ => ?_
  rw [toList_obj_text, List.length_cons, List.length_append] at hfuel
  rw [toList_obj_text, List.cons_append, List.append_assoc, List.singleton_append, value,
    skipSpace_cons (by decide), draftWith, draftFields_eq_map]
  simp only
  rw [if_neg (by decide), if_neg (by decide), if_neg (by decide), if_neg (by decide),
    if_neg (by decide), if_neg (by decide), if_neg (by decide), if_pos (by decide)]
  cases fields with
  | nil =>
    rw [fieldsText, String.toList_empty, List.nil_append, skipSpace_cons (by decide)]
    rfl
  | cons p ps =>
    have hfields := fields_fieldsText h (show 2 * (fieldsText (p :: ps)).toList.length + 1 ≤ fuel by
      omega) rest
    obtain ⟨cs, hcons⟩ := exists_fieldsText_eq_cons p ps
    rw [hcons, List.cons_append] at hfields ⊢
    rw [skipSpace_cons (by decide)]
    split
    case h_1 heq => exact absurd (List.cons.inj heq).1 (by decide)
    case h_2 heq => cases heq
    case h_3 => rw [hfields]

/-- The text of every value is read as its draft. -/
theorem readsText (j : Json) : ReadsText j := by
  induction j using Json.induct with
  | null => exact readsText_of_succ fun fuel rest _ _ => value_null fuel rest
  | bool b => exact readsText_of_succ fun fuel rest _ _ => value_bool b fuel rest
  | num n => exact readsText_of_succ fun fuel rest _ hrest => value_numberText n fuel hrest
  | str s => exact readsText_of_succ fun fuel rest _ _ => value_string s fuel rest
  | arr items ih => exact readsText_arr ih
  | obj fields ih => exact readsText_obj ih

/-- What is made of the whole text of a value: nothing stands after it. -/
theorem ofText_text (j : Json) : ofText j.text.toList = (draftWith Number.reread j, none) := by
  have h := readsText j (2 * j.text.toList.length + 2) [] (by omega) endsNumeral_nil
  rw [List.append_nil] at h
  rw [ofText, h]
  rfl

end Draft

/-- Reading the text of a value is reading the draft made of it. -/
lemma readText_text_iff {α : Type} {read : Reader → Draft → Except Fault α} {j : Json} {a : α} :
    readText read j.text = .ok a ↔
      read ⟨.text, nestingLimit⟩ (draftWith Number.reread j) = .ok a := by
  rw [readText, Draft.ofText_text]
  simp only [bind_pure]

end WireContract.Json
