import WireContract.Proofs.EmittedNames
import WireContract.Proofs.UpperCase

/-!
# Names in snake case, values in capitals

Members of a declaration are named in snake case, and `snake` respells a name in one pass that looks
one character back and one ahead.  Four rules may put an underscore: a separator, a capital after a
small letter, a capital after a digit, and the last capital of several.  `Collects` says what has
been collected when a part of the name has been read: `Spaced` text, whose underscores stand alone
and never first, with the letters of the part, and with an underscore at the end exactly if a
separator was read last.  Each rule keeps it (`Collects.gap`, `Collects.letter`), so the pass does
(`Collects.snakeFrom`).  Spaced text is in snake case already, so a second pass leaves it as it is
(`Spaced.snakeChars_eq`).

The values of an enumeration are words in capitals.  They are their own upper case, and as variants
they are in Pascal case.
-/

namespace WireContract.Schema

open Text

/-- Small letters and digits. -/
def isSmallChar (c : Char) : Bool :=
  isAsciiLower c || isAsciiDigit c

/-- A small letter and the rest of its word, then words after underscores:
`[a-z][a-z0-9]*(_[a-z0-9]+)*`. -/
def LowerSnakeCase (s : String) : Prop :=
  Worded isAsciiLower isSmallChar s.toList

lemma UpperSnakeCase.isConstantChar_or {s : String} (hs : UpperSnakeCase s) {c : Char}
    (hc : c ∈ s.toList) : (isConstantChar c || c == '_') = true := by
  obtain ⟨first, cs, words, heq, hfirst, hcs, hwords⟩ := hs
  rw [heq, List.mem_cons, List.mem_append] at hc
  rcases hc with rfl | hc | hc
  · simp [isConstantChar_of_upper hfirst]
  · simp [hcs c hc]
  · exact mem_underscored hwords hc

end WireContract.Schema

namespace WireContract.Text

open Schema

/-! ## ASCII characters -/

lemma isAsciiUpper_iff {c : Char} : isAsciiUpper c = true ↔ 65 ≤ c.toNat ∧ c.toNat ≤ 90 := by
  simp [isAsciiUpper, Char.le_def, UInt32.le_iff_toNat_le]

lemma isAsciiAlpha_iff {c : Char} : isAsciiAlpha c = true ↔
    (97 ≤ c.toNat ∧ c.toNat ≤ 122) ∨ (65 ≤ c.toNat ∧ c.toNat ≤ 90) := by
  simp [isAsciiAlpha, isAsciiLower, isAsciiUpper, Char.le_def, UInt32.le_iff_toNat_le]

lemma isSmallChar_iff {c : Char} : isSmallChar c = true ↔
    (97 ≤ c.toNat ∧ c.toNat ≤ 122) ∨ (48 ≤ c.toNat ∧ c.toNat ≤ 57) := by
  simp [isSmallChar, isAsciiLower, isAsciiDigit, Char.le_def, UInt32.le_iff_toNat_le]

lemma toNat_asciiLower (c : Char) :
    (asciiLower c).toNat = if 65 ≤ c.toNat ∧ c.toNat ≤ 90 then c.toNat + 32 else c.toNat := by
  unfold asciiLower
  by_cases hc : isAsciiUpper c = true
  · have hrange := isAsciiUpper_iff.1 hc
    rw [if_pos hc, if_pos hrange]
    exact toNat_ofNat_of_lt (by omega)
  · rw [if_neg hc, if_neg fun hrange => hc (isAsciiUpper_iff.2 hrange)]

lemma toNat_asciiUpper (c : Char) :
    (asciiUpper c).toNat = if 97 ≤ c.toNat ∧ c.toNat ≤ 122 then c.toNat - 32 else c.toNat := by
  unfold asciiUpper
  by_cases hc : isAsciiLower c = true
  · have hrange := isAsciiLower_iff.1 hc
    rw [if_pos hc, if_pos hrange]
    exact toNat_ofNat_of_lt (by omega)
  · rw [if_neg hc, if_neg fun hrange => hc (isAsciiLower_iff.2 hrange)]

/-- Lower case within ASCII is that of the library. -/
lemma asciiLower_eq_toLower (c : Char) : asciiLower c = c.toLower := by
  have hrange : 'A'.val ≤ c.val ∧ c.val ≤ 'Z'.val ↔ 65 ≤ c.toNat ∧ c.toNat ≤ 90 := Iff.rfl
  apply Char.toNat_inj.1
  rw [toNat_asciiLower]
  by_cases h : 65 ≤ c.toNat ∧ c.toNat ≤ 90
  · have hlower : c.toLower = _ := dif_pos (hrange.2 h)
    rw [if_pos h, hlower]
    have hval : c.val.toNat + 32 < 2 ^ 32 := by
      have : c.val.toNat ≤ 90 := h.2
      omega
    exact (Nat.mod_eq_of_lt hval).symm
  · have hsame : c.toLower = _ := dif_neg (mt hrange.1 h)
    rw [if_neg h, hsame]

lemma ne_underscore_of_small {c : Char} (hc : isSmallChar c = true) : c ≠ '_' := by
  rintro rfl
  exact absurd hc (by decide)

lemma isSmallChar_asciiLower {c : Char} (hc : isAsciiAlphanumeric c = true) :
    isSmallChar (asciiLower c) = true := by
  rw [isAsciiAlphanumeric_iff] at hc
  rw [isSmallChar_iff, toNat_asciiLower]
  split_ifs <;> omega

lemma asciiLower_of_small {c : Char} (hc : isSmallChar c = true) : asciiLower c = c := by
  rw [isSmallChar_iff] at hc
  apply Char.toNat_inj.1
  rw [toNat_asciiLower, if_neg (by omega)]

lemma isAsciiAlphanumeric_of_small {c : Char} (hc : isSmallChar c = true) :
    isAsciiAlphanumeric c = true := by
  rw [isSmallChar_iff] at hc
  rw [isAsciiAlphanumeric_iff]
  omega

lemma isUpper_eq_false_of_small {c : Char} (hc : isSmallChar c = true) : isUpper c = false := by
  rw [isSmallChar_iff] at hc
  rw [isUpper, if_pos (by omega), ← Bool.not_eq_true, isAsciiUpper_iff]
  omega

lemma isWordGap_eq_false_of_alphanumeric {c : Char} (hc : isAsciiAlphanumeric c = true) :
    isWordGap c = false := by
  rw [isWordGap, Bool.or_eq_false_iff, Bool.or_eq_false_iff]
  refine ⟨⟨?_, ?_⟩, ?_⟩ <;>
    · rw [beq_eq_false_iff_ne]
      rintro rfl
      exact absurd hc (by decide)

lemma lowerChars_of_alphanumeric {c : Char} (hc : isAsciiAlphanumeric c = true) :
    lowerChars c = [asciiLower c] := by
  rw [isAsciiAlphanumeric_iff] at hc
  rw [lowerChars, if_pos (by omega)]

/-! ## Text with single underscores -/

/-- Small letters, digits and underscores that stand alone, a letter first. -/
structure Spaced (cs : List Char) : Prop where
  spelled : isSpelled isAsciiLower (fun c => isSmallChar c || c == '_') cs = true
  single : hasDoubleUnderscore cs = false

namespace Spaced

variable {cs out : List Char}

lemma ne_nil (h : Spaced cs) : cs ≠ [] := by
  rintro rfl
  cases h.spelled

lemma exists_cons (h : Spaced cs) : ∃ c rest, cs = c :: rest ∧ isAsciiLower c = true ∧
    ∀ x ∈ rest, (isSmallChar x || x == '_') = true := by
  obtain ⟨c, rest, rfl⟩ := List.exists_cons_of_ne_nil h.ne_nil
  have hspelled := h.spelled
  rw [isSpelled, Bool.and_eq_true, List.all_eq_true, List.forall_mem_cons] at hspelled
  exact ⟨c, rest, rfl, hspelled.1, hspelled.2.2⟩

lemma concat (h : Spaced cs) {c : Char} (hc : (isSmallChar c || c == '_') = true)
    (hlast : cs.getLast? = some '_' → c ≠ '_') : Spaced (cs ++ [c]) where
  spelled := by rw [isSpelled_concat h.ne_nil, h.spelled, hc, Bool.and_self]
  single := by
    rw [hasDoubleUnderscore_concat, h.single, Bool.false_or, ← Bool.not_eq_true, Bool.and_eq_true,
      beq_iff_eq, beq_iff_eq]
    exact fun ⟨hcs, hmark⟩ => hlast hcs hmark

/-- Without an underscore at its end the text is spaced too, and has no other there. -/
lemma of_concat (h : Spaced (cs ++ ['_'])) : Spaced cs ∧ cs.getLast? ≠ some '_' := by
  have hne : cs ≠ [] := by
    rintro rfl
    exact absurd h.spelled (by decide)
  have hspelled := h.spelled
  have hsingle := h.single
  rw [isSpelled_concat hne, Bool.and_eq_true] at hspelled
  rw [hasDoubleUnderscore_concat, Bool.or_eq_false_iff] at hsingle
  exact ⟨⟨hspelled.1, hsingle.1⟩, by simpa using hsingle.2⟩

/-- Spaced text that does not end in an underscore consists of words joined by underscores. -/
lemma worded (h : Spaced cs) (hlast : cs.getLast? ≠ some '_') :
    Worded isAsciiLower isSmallChar cs :=
  (worded_iff (fun _ => ne_underscore_of_small) (fun c hc => by simp [isSmallChar, hc])).2
    ⟨h.spelled, hlast, h.single⟩

lemma addGap (h : Spaced out.reverse) : Spaced (addGap out).reverse := by
  rw [Text.addGap]
  split
  · exact h
  · rename_i hhead
    rw [List.reverse_cons]
    refine h.concat rfl fun hlast => ?_
    rw [List.getLast?_reverse] at hlast
    exact absurd hlast (by simpa using hhead)

end Spaced

lemma head?_addGap (out : List Char) : (addGap out).head? = some '_' := by
  rw [addGap]
  split
  · rename_i hhead
    exact beq_iff_eq.1 hhead
  · rfl

lemma filter_addGap (out : List Char) :
    (addGap out).filter (· != '_') = out.filter (· != '_') := by
  rw [addGap]
  split
  · rfl
  · simp

/-! ## The pass over a name -/

/-- What is collected, in reverse, when a part of a name has been read. -/
structure Collects (read out : List Char) : Prop where
  spaced : Spaced out.reverse
  gap_iff : out.head? = some '_' ↔ ∃ c, read.getLast? = some c ∧ isWordGap c = true
  letters : out.reverse.filter (· != '_') =
    (read.map Char.toLower).filter fun c => c != '_' && c != '-'

namespace Collects

variable {read out cs : List Char} {c : Char}

/-- A letter or digit that is read last is collected last, in lower case. -/
lemma of_letter (hc : isAsciiAlphanumeric c = true) (hspaced : Spaced (asciiLower c :: out).reverse)
    (hletters : out.reverse.filter (· != '_') =
      (read.map Char.toLower).filter fun c => c != '_' && c != '-') :
    Collects (read ++ [c]) (asciiLower c :: out) where
  spaced := hspaced
  gap_iff := by
    have hmark := ne_underscore_of_small (isSmallChar_asciiLower hc)
    simp [hmark, isWordGap_eq_false_of_alphanumeric hc]
  letters := by
    have hsmall := isSmallChar_asciiLower hc
    have hhyphen : asciiLower c ≠ '-' := by
      intro heq
      rw [heq] at hsmall
      exact absurd hsmall (by decide)
    rw [List.reverse_cons, List.filter_append, hletters, List.map_append, List.filter_append,
      List.map_singleton, ← asciiLower_eq_toLower]
    simp [ne_underscore_of_small hsmall, hhyphen]

lemma first (hc : isAsciiAlpha c = true) : Collects [c] [asciiLower c] := by
  have hlower : isAsciiLower (asciiLower c) = true := by
    rw [isAsciiAlpha_iff] at hc
    rw [isAsciiLower_iff, toNat_asciiLower]
    split_ifs <;> omega
  rw [← List.nil_append [c]]
  refine of_letter (by simp [isAsciiAlphanumeric, hc]) ⟨?_, ?_⟩ rfl
  · simp [isSpelled, isSmallChar, hlower]
  · simp [hasDoubleUnderscore]

/-- A separator puts an underscore unless one is there. -/
lemma gap (h : Collects read out) (hc : c = '_' ∨ c = '-') :
    Collects (read ++ [c]) (addGap out) where
  spaced := h.spaced.addGap
  gap_iff := by
    refine iff_of_true (head?_addGap out) ⟨c, List.getLast?_concat, ?_⟩
    rcases hc with rfl | rfl <;> rfl
  letters := by
    rw [List.filter_reverse, filter_addGap, ← List.filter_reverse, h.letters, List.map_append,
      List.filter_append]
    rcases hc with rfl | rfl <;> simp

/-- A letter or digit is collected in lower case, after an underscore if it opens a word. -/
lemma letter (h : Collects read out) (hc : isAsciiAlphanumeric c = true) (opened : Bool) :
    Collects (read ++ [c]) (asciiLower c :: if opened then addGap out else out) := by
  have hsmall := isSmallChar_asciiLower hc
  have hspaced : ∀ out', Spaced out'.reverse → Spaced (asciiLower c :: out').reverse := by
    intro out' hout'
    rw [List.reverse_cons]
    exact hout'.concat (by simp [hsmall]) fun _ => ne_underscore_of_small hsmall
  cases opened with
  | false => exact of_letter hc (hspaced _ h.spaced) h.letters
  | true =>
    refine of_letter hc (hspaced _ h.spaced.addGap) ?_
    rw [if_pos rfl, List.filter_reverse, filter_addGap, ← List.filter_reverse, h.letters]

/-- What the pass collects from the rest of a name. -/
lemma snakeFrom (hcs : ∀ c ∈ cs, (isAsciiAlphanumeric c || c == '_' || c == '-') = true)
    (before : Option Char) (h : Collects read out) :
    Collects (read ++ cs) (snakeFrom before out cs) := by
  induction cs generalizing before read out with
  | nil =>
    rw [List.append_nil]
    exact h
  | cons c cs ih =>
    rw [List.forall_mem_cons, Bool.or_eq_true, Bool.or_eq_true, beq_iff_eq, beq_iff_eq,
      or_assoc] at hcs
    rw [Text.snakeFrom, List.append_cons]
    rcases hcs.1 with hc | hc
    · rw [if_neg (by simp [isWordGap_eq_false_of_alphanumeric hc]), lowerChars_of_alphanumeric hc]
      exact ih hcs.2 _ (h.letter hc _)
    · have hgap : isWordGap c = true := by rcases hc with rfl | rfl <;> rfl
      have hout : out ≠ [] := fun hnil => h.spaced.ne_nil (by rw [hnil]; rfl)
      rw [if_pos hgap, if_neg (by simp [hout])]
      exact ih hcs.2 _ (h.gap hc)

end Collects

/-- What the whole pass collects from the name of a member. -/
lemma collects_of_memberIdentifier {s : String} (hs : MemberIdentifier s) :
    Collects s.toList (snakeFrom none [] s.toList) := by
  obtain ⟨c, cs, heq, hc, hcs⟩ := hs
  have halnum : isAsciiAlphanumeric c = true := by simp [isAsciiAlphanumeric, hc]
  have hfirst : snakeFrom none [] (c :: cs) = snakeFrom (some c) [asciiLower c] cs := by
    rw [snakeFrom, if_neg (by simp [isWordGap_eq_false_of_alphanumeric halnum]),
      lowerChars_of_alphanumeric halnum]
    simp
  rw [heq, hfirst]
  exact (Collects.first hc).snakeFrom hcs (some c)

/-- The end of the pass: an underscore that stands last goes unless the name ends in one. -/
lemma Collects.snakeChars {cs : List Char} (h : Collects cs (Text.snakeFrom none [] cs)) :
    Spaced (snakeChars cs) ∧
      ((snakeChars cs).getLast? = some '_' ↔ cs.getLast? = some '_') ∧
      (snakeChars cs).filter (· != '_') =
        (cs.map Char.toLower).filter fun c => c != '_' && c != '-' := by
  rw [Text.snakeChars]
  generalize Text.snakeFrom none [] cs = out at h
  by_cases hdrop : out.head? = some '_' ∧ cs.getLast? ≠ some '_'
  · obtain ⟨rest, rfl⟩ := List.head?_eq_some_iff.1 hdrop.1
    have hspaced := h.spaced
    have hletters := h.letters
    rw [List.reverse_cons] at hspaced hletters
    obtain ⟨hrest, hlast⟩ := hspaced.of_concat
    rw [if_pos (by simp [hdrop.2])]
    refine ⟨hrest, iff_of_false hlast hdrop.2, ?_⟩
    simpa using hletters
  · rw [if_neg (by simpa using hdrop)]
    refine ⟨h.spaced, ?_, h.letters⟩
    rw [List.getLast?_reverse]
    constructor
    · exact fun hhead => not_not.1 fun hcs => hdrop ⟨hhead, hcs⟩
    · exact fun hcs => h.gap_iff.2 ⟨'_', hcs, rfl⟩

/-! ## A second pass -/

/-- Text with single underscores is collected as it stands. -/
lemma snakeFrom_of_small {cs : List Char}
    (hcs : ∀ c ∈ cs, (isSmallChar c || c == '_') = true) (before : Option Char) {c : Char}
    (hsingle : hasDoubleUnderscore (c :: cs) = false) (out : List Char) :
    snakeFrom before (c :: out) cs = cs.reverse ++ c :: out := by
  induction cs generalizing before c out with
  | nil => rfl
  | cons d cs ih =>
    rw [List.forall_mem_cons] at hcs
    rw [hasDoubleUnderscore_cons_cons, Bool.or_eq_false_iff] at hsingle
    rw [snakeFrom, List.reverse_cons, List.append_assoc, List.singleton_append]
    by_cases hd : d = '_'
    · subst hd
      have hc : c ≠ '_' := by simpa using hsingle.1
      have hgap : addGap (c :: out) = '_' :: c :: out := by simp [addGap, hc]
      rw [if_pos (by decide), if_neg (by simp), hgap]
      exact ih hcs.2 _ hsingle.2 _
    · have hsmall : isSmallChar d = true := by simpa [hd] using hcs.1
      have halnum := isAsciiAlphanumeric_of_small hsmall
      rw [if_neg (by simp [isWordGap_eq_false_of_alphanumeric halnum]),
        lowerChars_of_alphanumeric halnum, asciiLower_of_small hsmall,
        isUpper_eq_false_of_small hsmall]
      exact ih hcs.2 _ hsingle.2 _

/-- Spaced text is in snake case. -/
lemma Spaced.snakeChars_eq {cs : List Char} (h : Spaced cs) : snakeChars cs = cs := by
  obtain ⟨c, cs, rfl, hc, hcs⟩ := h.exists_cons
  have hsmall : isSmallChar c = true := by simp [isSmallChar, hc]
  have halnum := isAsciiAlphanumeric_of_small hsmall
  have hpass : snakeFrom none [] (c :: cs) = (c :: cs).reverse := by
    rw [snakeFrom, if_neg (by simp [isWordGap_eq_false_of_alphanumeric halnum]),
      lowerChars_of_alphanumeric halnum, asciiLower_of_small hsmall, List.reverse_cons]
    simpa using snakeFrom_of_small hcs (some c) h.single []
  -- what is collected ends as the text does, so nothing goes
  rw [snakeChars, hpass, List.head?_reverse, if_neg (by simp), List.reverse_reverse]

/-- The snake case of a member's name consists of words of small letters and digits joined by
underscores, the first word starting with a letter, and of one more underscore exactly if the name
ends in one.  Apart from underscores it has the letters and digits of the name in lower case, and it
is its own snake case. -/
theorem snake_of_member_name (s : String) (hs : isMemberName s = true) :
    (∃ t, LowerSnakeCase t ∧
        snake s = if s.toList.getLast? = some '_' then t ++ "_" else t) ∧
      (snake s).toList.filter (· != '_') =
        (s.toList.map Char.toLower).filter (fun c => c != '_' && c != '-') ∧
      snake (snake s) = snake s := by
  obtain ⟨hspaced, hlast, hletters⟩ :=
    (collects_of_memberIdentifier ((isMemberName_iff s).1 hs)).snakeChars
  have htext : (snake s).toList = snakeChars s.toList := String.toList_ofList
  refine ⟨?_, by rw [htext, hletters], ?_⟩
  · by_cases hend : s.toList.getLast? = some '_'
    · obtain ⟨cs, hcs⟩ := List.getLast?_eq_some_iff.1 (hlast.2 hend)
      rw [hcs] at hspaced
      obtain ⟨hrest, hrest'⟩ := hspaced.of_concat
      refine ⟨String.ofList cs, ?_, ?_⟩
      · rw [LowerSnakeCase, String.toList_ofList]
        exact hrest.worded hrest'
      · rw [if_pos hend, snake, hcs, String.ofList_append]
    · refine ⟨snake s, ?_, by rw [if_neg hend]⟩
      rw [LowerSnakeCase, htext]
      exact hspaced.worded (mt hlast.1 hend)
  · rw [snake, htext, hspaced.snakeChars_eq]
    rfl

/-- A name with all that the pass looks for: an acronym, a digit before a capital, separators side
by side, and an underscore at its end. -/
theorem snake_of_member_name_httpPort :
    isMemberName "HTTPPort2Use_-tls_" = true ∧ snake "HTTPPort2Use_-tls_" = "http_port2_use_tls_" ∧
      (∃ t, LowerSnakeCase t ∧ "http_port2_use_tls_" = t ++ "_") ∧
      snake "http_port2_use_tls_" = "http_port2_use_tls_" := by
  have hname : isMemberName "HTTPPort2Use_-tls_" = true := by decide
  have hsnake : snake "HTTPPort2Use_-tls_" = "http_port2_use_tls_" := by decide
  obtain ⟨hform, -, htwice⟩ := snake_of_member_name _ hname
  rw [hsnake] at hform htwice
  exact ⟨hname, hsnake, hform, htwice⟩

/-! ## Values in capitals -/

/-- A text in capitals, with digits and underscores, is its own upper case. -/
lemma upper_of_upperSnakeCase {s : String} (hs : UpperSnakeCase s) : upper s = s := by
  have hfixed : ∀ c ∈ s.toList, upperChars c = [c] := by
    intro c hc
    have hrange : c.toNat < 128 ∧ ¬ (97 ≤ c.toNat ∧ c.toNat ≤ 122) := by
      have hchar := hs.isConstantChar_or hc
      simp only [isConstantChar, isAsciiDigit, Bool.or_eq_true, isAsciiUpper_iff,
        Bool.and_eq_true, decide_eq_true_eq, beq_iff_eq, Char.le_def,
        UInt32.le_iff_toNat_le] at hchar
      rcases hchar with (hupper | ⟨-, hdigit⟩) | rfl
      · omega
      · have hnine : c.toNat ≤ 57 := hdigit
        omega
      · decide
    have hsame : asciiUpper c = c := by
      apply Char.toNat_inj.1
      rw [toNat_asciiUpper, if_neg hrange.2]
    unfold upperChars
    rw [if_pos hrange.1, hsame]
  unfold upper
  rw [List.flatMap_congr hfixed]
  simp

/-- The variant of a value is in Pascal case; it starts with the capital that the value starts
with. -/
lemma pascalCase_variant {s : String} (hs : UpperSnakeCase s) : PascalCase (variant s) := by
  have hall := alphanumeric_variant hs
  obtain ⟨c, cs, words, heq, hc, -⟩ := hs
  have hsame : asciiUpper c = c := by
    rw [isAsciiUpper_iff] at hc
    apply Char.toNat_inj.1
    rw [toNat_asciiUpper, if_neg (by omega)]
  have hhead : (variant s).toList.head? = some c := by
    have hne := isConstantChar_ne_underscore (isConstantChar_of_upper hc)
    obtain ⟨piece, pieces, hpieces⟩ :=
      List.exists_cons_of_ne_nil (splitOn_ne_nil '_' (cs ++ underscored words))
    rw [variant, String.toList_ofList, heq, splitOn, hpieces]
    simp [hne, capitalized, hsame]
  obtain ⟨rest, hrest⟩ := List.head?_eq_some_iff.1 hhead
  refine ⟨c, rest, hrest, hc, fun x hx => hall x ?_⟩
  rw [hrest]
  exact List.mem_cons_of_mem _ hx

/-- The check for values accepts exactly the words in capitals and digits that are joined by single
underscores, a capital first.  Such a value is its own upper case, and its variant consists of
letters and digits, starts with a capital and has no underscore. -/
theorem constantCase_grammar_upper_variant (s : String) :
    (isConstantCase s = true ↔ UpperSnakeCase s) ∧
      (UpperSnakeCase s →
        upper s = s ∧ PascalCase (variant s) ∧ '_' ∉ (variant s).toList) := by
  refine ⟨isConstantCase_iff s, fun hs => ⟨upper_of_upperSnakeCase hs, pascalCase_variant hs, ?_⟩⟩
  intro hmark
  exact absurd (alphanumeric_variant hs _ hmark) (by decide)

/-- A value of three words, one of digits alone. -/
theorem constantCase_grammar_upper_variant_threeWords :
    UpperSnakeCase "V2_07_BETA" ∧ upper "V2_07_BETA" = "V2_07_BETA" ∧
      PascalCase "V207Beta" ∧ ¬ UpperSnakeCase "V2__BETA" := by
  have hvalue : UpperSnakeCase "V2_07_BETA" :=
    (constantCase_grammar_upper_variant _).1.1 (by decide)
  obtain ⟨hupper, hvariant, -⟩ := (constantCase_grammar_upper_variant "V2_07_BETA").2 hvalue
  have htext : variant "V2_07_BETA" = "V207Beta" := by decide
  rw [htext] at hvariant
  refine ⟨hvalue, hupper, hvariant, fun hdouble => ?_⟩
  exact absurd ((constantCase_grammar_upper_variant _).1.2 hdouble) (by decide)

end WireContract.Text
