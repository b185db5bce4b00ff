import Mathlib.Data.List.Basic
import Mathlib.Tactic.Common
import WireContract.Schema.WellFormed

/-!
# How names are spelled

The spellings that a contract asks for, as grammars: a first character of one class followed by
characters of another, and for the values of an enumeration `[A-Z][A-Z0-9]*(_[A-Z0-9]+)*`.  The
checks scan a text for what the grammar excludes; `isSpelled_iff` and `isConstantCase_iff` say that
the scan and the grammar agree.

Words joined by underscores are treated for any class of word characters without the underscore
(`worded_iff`): capitals and digits in the values of an enumeration, small letters and digits in
names that are respelled.
-/

namespace WireContract.Schema

open Text

/-! ## A first character and the rest -/

/-- The text is one character of the first class and any number of the second. -/
def Spelled (first rest : Char → Bool) (s : String) : Prop :=
  ∃ c cs, s.toList = c :: cs ∧ first c = true ∧ ∀ x ∈ cs, rest x = true

/-- A capital, then letters and digits. -/
def PascalCase (s : String) : Prop :=
  Spelled isAsciiUpper isAsciiAlphanumeric s

/-- A small letter, then small letters, digits and underscores. -/
def LowercaseIdentifier (s : String) : Prop :=
  Spelled isAsciiLower (fun c => isAsciiLower c || isAsciiDigit c || c == '_') s

/-- A letter, then letters, digits, underscores and hyphens. -/
def MemberIdentifier (s : String) : Prop :=
  Spelled isAsciiAlpha (fun c => isAsciiAlphanumeric c || c == '_' || c == '-') s

lemma isSpelled_iff {first rest : Char → Bool} (hfirst : ∀ c, first c = true → rest c = true)
    (s : String) : isSpelled first rest s.toList = true ↔ Spelled first rest s := by
  cases hs : s.toList with
  | nil => simp [isSpelled, Spelled, hs]
  | cons c cs =>
    simp only [isSpelled, Spelled, hs, Bool.and_eq_true, List.all_eq_true, List.forall_mem_cons]
    constructor
    · rintro ⟨hc, -, hcs⟩
      exact ⟨c, cs, rfl, hc, hcs⟩
    · rintro ⟨c', cs', heq, hc, hcs⟩
      obtain ⟨rfl, rfl⟩ := List.cons.inj heq
      exact ⟨hc, hfirst _ hc, hcs⟩

lemma isSpelled_concat {first rest : Char → Bool} {cs : List Char} (hcs : cs ≠ []) (c : Char) :
    isSpelled first rest (cs ++ [c]) = (isSpelled first rest cs && rest c) := by
  obtain ⟨d, ds, rfl⟩ := List.exists_cons_of_ne_nil hcs
  simp [isSpelled, Bool.and_assoc]

lemma isTypeCase_iff (s : String) : isTypeCase s = true ↔ PascalCase s :=
  isSpelled_iff (fun c hc => by simp [isAsciiAlphanumeric, isAsciiAlpha, hc]) s

lemma isPackageSegment_iff (s : String) : isPackageSegment s = true ↔ LowercaseIdentifier s :=
  isSpelled_iff (fun c hc => by simp [hc]) s

lemma isMemberName_iff (s : String) : isMemberName s = true ↔ MemberIdentifier s :=
  isSpelled_iff (fun c hc => by simp [isAsciiAlphanumeric, hc]) s

/-! ## Words joined by underscores -/

/-- The characters of a word in capitals. -/
def isConstantChar (c : Char) : Bool :=
  isAsciiUpper c || isAsciiDigit c

/-- The text of words, each after an underscore. -/
def underscored (words : List (List Char)) : List Char :=
  words.flatMap fun w => '_' :: w

/-- A capital and the rest of its word, then words after underscores:
`[A-Z][A-Z0-9]*(_[A-Z0-9]+)*`. -/
def UpperSnakeCase (s : String) : Prop :=
  ∃ c cs words, s.toList = c :: (cs ++ underscored words) ∧ isAsciiUpper c = true ∧
    (∀ x ∈ cs, isConstantChar x = true) ∧
    ∀ w ∈ words, w ≠ [] ∧ ∀ x ∈ w, isConstantChar x = true

/-- A character of one class and the rest of its word, then words after underscores, all of
characters of another class. -/
def Worded (first rest : Char → Bool) (cs : List Char) : Prop :=
  ∃ c w words, cs = c :: (w ++ underscored words) ∧ first c = true ∧
    (∀ x ∈ w, rest x = true) ∧ ∀ v ∈ words, v ≠ [] ∧ ∀ x ∈ v, rest x = true

lemma isConstantChar_of_upper {c : Char} (hc : isAsciiUpper c = true) :
    isConstantChar c = true := by
  simp [isConstantChar, hc]

lemma hasDoubleUnderscore_cons {c : Char} (hc : c ≠ '_') (cs : List Char) :
    hasDoubleUnderscore (c :: cs) = hasDoubleUnderscore cs := by
  rw [hasDoubleUnderscore]
  intro _ h
  exact (hc h).elim

lemma hasDoubleUnderscore_underscore_cons {c : Char} (hc : c ≠ '_') (cs : List Char) :
    hasDoubleUnderscore ('_' :: c :: cs) = hasDoubleUnderscore cs := by
  rw [hasDoubleUnderscore, hasDoubleUnderscore_cons hc]
  intro _ _ h
  exact hc (List.cons.inj h).1

lemma hasDoubleUnderscore_cons_cons (c d : Char) (cs : List Char) :
    hasDoubleUnderscore (c :: d :: cs) =
      (c == '_' && d == '_' || hasDoubleUnderscore (d :: cs)) := by
  by_cases hc : c = '_'
  · by_cases hd : d = '_'
    · simp [hc, hd, hasDoubleUnderscore]
    · simp [hc, hd, hasDoubleUnderscore_underscore_cons hd, hasDoubleUnderscore_cons hd]
  · simp [hc, hasDoubleUnderscore_cons hc]

lemma hasDoubleUnderscore_concat (cs : List Char) (c : Char) :
    hasDoubleUnderscore (cs ++ [c]) =
      (hasDoubleUnderscore cs || (cs.getLast? == some '_' && c == '_')) := by
  induction cs with
  | nil => simp [hasDoubleUnderscore]
  | cons d cs ih =>
    cases cs with
    | nil => simp [hasDoubleUnderscore_cons_cons, hasDoubleUnderscore]
    | cons e cs =>
      rw [List.cons_append, List.cons_append, hasDoubleUnderscore_cons_cons, ← List.cons_append, ih,
        hasDoubleUnderscore_cons_cons, List.getLast?_cons_cons, Bool.or_assoc]

lemma getLast?_tail_ne {c d : Char} {cs : List Char} (h : (c :: cs).getLast? ≠ some d) :
    cs.getLast? ≠ some d := by
  cases cs with
  | nil => simp
  | cons e cs => rwa [List.getLast?_cons_cons] at h

section Words

variable {rest : Char → Bool}

lemma mem_underscored {words : List (List Char)}
    (hwords : ∀ w ∈ words, w ≠ [] ∧ ∀ x ∈ w, rest x = true) {c : Char}
    (hc : c ∈ underscored words) : (rest c || c == '_') = true := by
  obtain ⟨w, hw, hcw⟩ := List.mem_flatMap.1 hc
  rcases List.mem_cons.1 hcw with rfl | hcw
  · simp
  · simp [(hwords w hw).2 c hcw]

/-- A text of word characters and underscores, without an underscore at its end and without two
side by side, is a word followed by words after underscores. -/
lemma exists_words_of_scan {cs : List Char} (hchars : ∀ x ∈ cs, (rest x || x == '_') = true)
    (hlast : cs.getLast? ≠ some '_') (hdouble : hasDoubleUnderscore cs = false) :
    ∃ w words, cs = w ++ underscored words ∧ (∀ x ∈ w, rest x = true) ∧
      ∀ v ∈ words, v ≠ [] ∧ ∀ x ∈ v, rest x = true := by
  induction cs with
  | nil => exact ⟨[], [], rfl, by simp, by simp⟩
  | cons c cs ih =>
    rw [List.forall_mem_cons] at hchars
    by_cases hc : c = '_'
    · subst hc
      cases cs with
      | nil => exact (hlast rfl).elim
      | cons d ds =>
        have hd : d ≠ '_' := by
          rintro rfl
          simp [hasDoubleUnderscore] at hdouble
        rw [hasDoubleUnderscore_underscore_cons hd, ← hasDoubleUnderscore_cons hd] at hdouble
        rw [List.getLast?_cons_cons] at hlast
        obtain ⟨w, words, heq, hw, hwords⟩ := ih hchars.2 hlast hdouble
        have hne : w ≠ [] := by
          rintro rfl
          cases words with
          | nil => simp [underscored] at heq
          | cons v words => exact hd (List.cons.inj heq).1
        refine ⟨[], w :: words, ?_, by simp, ?_⟩
        · rw [heq]
          simp [underscored]
        · rw [List.forall_mem_cons]
          exact ⟨⟨hne, hw⟩, hwords⟩
    · have hword : rest c = true := by simpa [hc] using hchars.1
      rw [hasDoubleUnderscore_cons hc] at hdouble
      obtain ⟨w, words, rfl, hw, hwords⟩ := ih hchars.2 (getLast?_tail_ne hlast) hdouble
      exact ⟨c :: w, words, rfl, List.forall_mem_cons.2 ⟨hword, hw⟩, hwords⟩

variable (hrest : ∀ x, rest x = true → x ≠ '_')

include hrest

/-- Word characters in front bring no pair of underscores. -/
lemma hasDoubleUnderscore_append {w : List Char} (hw : ∀ x ∈ w, rest x = true)
    (cs : List Char) : hasDoubleUnderscore (w ++ cs) = hasDoubleUnderscore cs := by
  induction w with
  | nil => rfl
  | cons x w ih =>
    rw [List.forall_mem_cons] at hw
    rw [List.cons_append, hasDoubleUnderscore_cons (hrest x hw.1), ih hw.2]

/-- Words after underscores have no two underscores side by side. -/
lemma hasDoubleUnderscore_underscored {words : List (List Char)}
    (hwords : ∀ w ∈ words, w ≠ [] ∧ ∀ x ∈ w, rest x = true) :
    hasDoubleUnderscore (underscored words) = false := by
  induction words with
  | nil => rfl
  | cons w words ih =>
    rw [List.forall_mem_cons] at hwords
    obtain ⟨⟨hne, hw⟩, hwords⟩ := hwords
    obtain ⟨x, w, rfl⟩ := List.exists_cons_of_ne_nil hne
    rw [List.forall_mem_cons] at hw
    rw [underscored, List.flatMap_cons, List.cons_append, List.cons_append,
      hasDoubleUnderscore_underscore_cons (hrest x hw.1), hasDoubleUnderscore_append hrest hw.2]
    exact ih hwords

/-- The last character of words after underscores, with a word before them, is no underscore. -/
lemma getLast?_append_underscored {w : List Char} (hw : ∀ x ∈ w, rest x = true)
    {words : List (List Char)} (hwords : ∀ w ∈ words, w ≠ [] ∧ ∀ x ∈ w, rest x = true) :
    (w ++ underscored words).getLast? ≠ some '_' := by
  induction words generalizing w with
  | nil =>
    intro h
    have hmem : '_' ∈ w := List.mem_of_getLast? (by simpa [underscored] using h)
    exact hrest _ (hw _ hmem) rfl
  | cons v words ih =>
    rw [List.forall_mem_cons] at hwords
    obtain ⟨⟨hne, hv⟩, hwords⟩ := hwords
    -- the last character lies in what follows the underscore before `v`
    have hcut : w ++ underscored (v :: words) = (w ++ ['_']) ++ (v ++ underscored words) := by
      simp [underscored]
    rw [hcut, List.getLast?_append_of_ne_nil _ (by simp [hne])]
    exact ih hv hwords

/-- The scan for words joined by underscores accepts exactly the texts of the grammar. -/
theorem worded_iff {first : Char → Bool} (hfirst : ∀ c, first c = true → rest c = true)
    {cs : List Char} :
    Worded first rest cs ↔ isSpelled first (fun c => rest c || c == '_') cs = true ∧
      cs.getLast? ≠ some '_' ∧ hasDoubleUnderscore cs = false := by
  constructor
  · rintro ⟨c, w, words, rfl, hc, hw, hwords⟩
    have hcw : ∀ x ∈ c :: w, rest x = true := List.forall_mem_cons.2 ⟨hfirst c hc, hw⟩
    refine ⟨?_, getLast?_append_underscored hrest hcw hwords, ?_⟩
    · rw [isSpelled, hc, Bool.true_and, List.all_eq_true, ← List.cons_append]
      intro x hx
      rcases List.mem_append.1 hx with hx | hx
      · simp [hcw x hx]
      · exact mem_underscored hwords hx
    · rw [← List.cons_append, hasDoubleUnderscore_append hrest hcw,
        hasDoubleUnderscore_underscored hrest hwords]
  · rintro ⟨hspelled, hlast, hdouble⟩
    cases cs with
    | nil => cases hspelled
    | cons c cs =>
      rw [isSpelled, Bool.and_eq_true, List.all_eq_true, List.forall_mem_cons] at hspelled
      obtain ⟨hc, -, hcs⟩ := hspelled
      rw [hasDoubleUnderscore_cons (hrest c (hfirst c hc))] at hdouble
      obtain ⟨w, words, rfl, hw, hwords⟩ :=
        exists_words_of_scan hcs (getLast?_tail_ne hlast) hdouble
      exact ⟨c, w, words, rfl, hc, hw, hwords⟩

end Words

lemma isConstantChar_ne_underscore {c : Char} (hc : isConstantChar c = true) : c ≠ '_' := by
  rintro rfl
  exact absurd hc (by decide)

/-- The scan for constant case accepts exactly the texts of the grammar. -/
theorem isConstantCase_iff (s : String) : isConstantCase s = true ↔ UpperSnakeCase s := by
  rw [isConstantCase, Bool.and_eq_true, Bool.and_eq_true, bne_iff_ne, Bool.not_eq_true', and_assoc]
  exact (worded_iff (fun _ => isConstantChar_ne_underscore) (fun _ => isConstantChar_of_upper)).symm

end WireContract.Schema
