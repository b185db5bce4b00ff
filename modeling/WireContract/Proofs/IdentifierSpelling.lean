import WireContract.Proofs.ImportAliases
import WireContract.Proofs.NameCases

/-!
# Names become identifiers

An identifier is made from a name by respelling and escaping, and nothing looks at the result.  Here
the rules for names are followed through: a name that keeps them is, after any respelling, a letter
and then letters, digits and underscores (`PlainIdentifier`), and escaping such a text gives an
identifier or a raw identifier, and no keyword (`Ident.isName_ofName`).
-/

namespace WireContract.Schema

open Text

/-- Letters, digits and underscores. -/
def isPlainChar (c : Char) : Bool := isAsciiAlphanumeric c || c == '_'

/-- A letter, then letters, digits and underscores. -/
def PlainIdentifier (s : String) : Prop := Spelled isAsciiAlpha isPlainChar s

lemma isPlainChar_of_alphanumeric {c : Char} (hc : isAsciiAlphanumeric c = true) :
    isPlainChar c = true := by
  simp [isPlainChar, hc]

lemma isPlainChar_of_alpha {c : Char} (hc : isAsciiAlpha c = true) : isPlainChar c = true :=
  isPlainChar_of_alphanumeric (by simp [isAsciiAlphanumeric, hc])

/-- A text that starts with a letter and whose characters are plain is a plain identifier. -/
lemma plainIdentifier_of_head {s : String} {c : Char} (hhead : s.toList.head? = some c)
    (hc : isAsciiAlpha c = true) (hall : s.toList.all isPlainChar = true) :
    PlainIdentifier s := by
  obtain ⟨cs, hs⟩ := List.head?_eq_some_iff.1 hhead
  rw [hs, List.all_cons, Bool.and_eq_true, List.all_eq_true] at hall
  exact ⟨c, cs, hs, hc, hall.2⟩

namespace PlainIdentifier

variable {s t : String}

lemma all (hs : PlainIdentifier s) : s.toList.all isPlainChar = true := by
  obtain ⟨c, cs, heq, hc, hcs⟩ := hs
  rw [heq, List.all_eq_true]
  exact List.forall_mem_cons.2 ⟨isPlainChar_of_alpha hc, hcs⟩

lemma append (hs : PlainIdentifier s) (ht : t.toList.all isPlainChar = true) :
    PlainIdentifier (s ++ t) := by
  obtain ⟨c, cs, heq, hc, hcs⟩ := hs
  refine ⟨c, cs ++ t.toList, by rw [String.toList_append, heq]; rfl, hc, ?_⟩
  exact List.forall_mem_append.2 ⟨hcs, List.all_eq_true.1 ht⟩

lemma isIdent (hs : PlainIdentifier s) : isIdent s.toList = true := by
  obtain ⟨c, cs, heq, hc, hcs⟩ := hs
  have hascii : ∀ {x : Char}, isAsciiAlphanumeric x = true → x.toNat < 128 := by
    intro x hx
    rw [isAsciiAlphanumeric_iff] at hx
    omega
  have hstart : isIdentStart c = true := by
    rw [isIdentStart, if_pos (hascii (by simp [isAsciiAlphanumeric, hc]))]
    rw [isAsciiAlpha, isAsciiLower, isAsciiUpper] at hc
    rw [hc, Bool.true_or]
  have hrest : ∀ x ∈ cs, isIdentContinue x = true := by
    intro x hx
    have hx' := hcs x hx
    rw [isPlainChar, Bool.or_eq_true, beq_iff_eq] at hx'
    rcases hx' with hx' | rfl
    · rw [isIdentContinue, if_pos (hascii hx')]
      rw [isAsciiAlphanumeric, isAsciiAlpha, isAsciiLower, isAsciiUpper, isAsciiDigit] at hx'
      rw [hx', Bool.true_or]
    · decide
  rw [heq, Text.isIdent, hstart, Bool.true_and, List.all_eq_true]
  exact hrest

end PlainIdentifier

lemma PascalCase.plainIdentifier {s : String} (hs : PascalCase s) : PlainIdentifier s := by
  obtain ⟨c, cs, heq, hc, hcs⟩ := hs
  exact ⟨c, cs, heq, by simp [isAsciiAlpha, hc],
    fun x hx => isPlainChar_of_alphanumeric (hcs x hx)⟩

lemma LowercaseIdentifier.plainIdentifier {s : String} (hs : LowercaseIdentifier s) :
    PlainIdentifier s := by
  obtain ⟨c, cs, heq, hc, hcs⟩ := hs
  refine ⟨c, cs, heq, by simp [isAsciiAlpha, hc], fun x hx => ?_⟩
  have hx' := hcs x hx
  simp only [Bool.or_eq_true] at hx'
  rcases hx' with (hlower | hdigit) | hunder
  · exact isPlainChar_of_alpha (by simp [isAsciiAlpha, hlower])
  · exact isPlainChar_of_alphanumeric (by simp [isAsciiAlphanumeric, hdigit])
  · simp [isPlainChar, hunder]

end WireContract.Schema

namespace WireContract.Text

open Schema

/-! ## Respelled names -/

lemma isAsciiAlpha_asciiUpper {c : Char} (hc : isAsciiAlpha c = true) :
    isAsciiAlpha (asciiUpper c) = true := by
  rw [isAsciiAlpha_iff] at hc
  rw [isAsciiAlpha_iff, toNat_asciiUpper]
  split_ifs <;> omega

lemma plainIdentifier_snake {s : String} (hs : MemberIdentifier s) : PlainIdentifier (snake s) := by
  have hspaced := (collects_of_memberIdentifier hs).snakeChars.1
  obtain ⟨c, cs, hsnake, hc, hcs⟩ := hspaced.exists_cons
  refine ⟨c, cs, by rw [snake, String.toList_ofList, hsnake], by simp [isAsciiAlpha, hc], ?_⟩
  intro x hx
  rcases Bool.or_eq_true_iff.1 (hcs x hx) with hsmall | hmark
  · exact isPlainChar_of_alphanumeric (isAsciiAlphanumeric_of_small hsmall)
  · simp [isPlainChar, hmark]

lemma plainIdentifier_pascal {s : String} (hs : MemberIdentifier s) :
    PlainIdentifier (pascal s) := by
  have hall := alphanumeric_pascal hs
  obtain ⟨c, cs, heq, hc, -⟩ := hs
  refine plainIdentifier_of_head ?_ (isAsciiAlpha_asciiUpper hc)
    (List.all_eq_true.2 fun x hx => isPlainChar_of_alphanumeric (hall x hx))
  rw [pascal, String.toList_ofList, heq, pascalFrom,
    if_neg (by simp [isWordGap_eq_false_of_alphanumeric, isAsciiAlphanumeric, hc])]
  rfl

lemma plainIdentifier_variant {s : String} (hs : UpperSnakeCase s) : PlainIdentifier (variant s) :=
  (pascalCase_variant hs).plainIdentifier

end WireContract.Text

namespace WireContract.Rust

open Text Schema

/-! ## Escaped names -/

lemma isSpelling_of_isIdent {s : String} (hs : isIdent s.toList = true) : isSpelling s = true := by
  unfold isSpelling
  split
  · rename_i rest heq
    rw [heq, isIdent, List.all_cons] at hs
    have hmark : isIdentContinue '#' = false := by decide
    simp [hmark] at hs
  · exact hs

/-- A keyword is written in letters alone, so a text with another character is none. -/
lemma notMem_keywords {s : String} {c : Char} (hc : c ∈ s.toList) (hletter : c = '_' ∨ c = '#') :
    s ∉ keywords := by
  have hletters : keywords.all (fun k => k.toList.all isAsciiAlpha) = true := by decide
  intro hs
  have halpha := List.all_eq_true.1 (List.all_eq_true.1 hletters s hs) c hc
  rcases hletter with rfl | rfl
  · exact absurd halpha (by decide)
  · exact absurd halpha (by decide)

namespace Ident

/-- The identifier can name an item: it is spelled as one, raw or not, and is no keyword. -/
structure IsName (i : Ident) : Prop where
  spelling : isSpelling i.text = true
  free : i.text ∉ keywords

/-- Escaping a plain identifier gives a name. -/
lemma isName_ofName {s : String} (hs : PlainIdentifier s) : (ofName s).IsName := by
  unfold ofName rawIfKeyword
  split
  · refine ⟨isSpelling_of_isIdent (hs.append (by decide)).isIdent, ?_⟩
    exact notMem_keywords (by simp) (.inl rfl)
  · rename_i hraw
    split
    · have hchars : ("r#" ++ s).toList = 'r' :: '#' :: s.toList := by simp
      refine ⟨?_, notMem_keywords (by simp) (.inr rfl)⟩
      simp only [isSpelling, hchars, hs.isIdent, String.ofList_toList, Bool.true_and]
      simpa using hraw
    · rename_i hfree
      exact ⟨isSpelling_of_isIdent hs.isIdent, by simpa [isKeyword] using hfree⟩

lemma isName_field {name : String} (h : MemberIdentifier name) : (field name).IsName :=
  isName_ofName (plainIdentifier_snake h)

lemma isName_companion {name suffix : String} (h : PascalCase name)
    (hsuffix : suffix.toList.all isPlainChar = true) : (companion name suffix).IsName :=
  isName_ofName (h.plainIdentifier.append hsuffix)

lemma isName_variant {name : String} (h : PlainIdentifier name) : (variant name).IsName := by
  unfold variant
  split
  · exact ⟨by decide, by decide⟩
  · exact isName_ofName h

lemma isName_enumVariant {value : String} (h : UpperSnakeCase value) :
    (enumVariant value).IsName :=
  isName_variant (plainIdentifier_variant h)

lemma isName_memberVariant {tag : String} (h : MemberIdentifier tag) :
    (memberVariant tag).IsName :=
  isName_variant (plainIdentifier_pascal h)

lemma isName_visitMethod {tag : String} (h : MemberIdentifier tag) :
    (visitMethod tag).IsName := by
  have hstart : PlainIdentifier "visit_" :=
    @plainIdentifier_of_head _ 'v' (by decide) (by decide) (by decide)
  unfold visitMethod
  dsimp only
  split
  · exact ⟨by decide, by decide⟩
  · refine ⟨isSpelling_of_isIdent (hstart.append (plainIdentifier_snake h).all).isIdent, ?_⟩
    exact notMem_keywords (by simp) (.inl rfl)

end Ident

end WireContract.Rust

namespace WireContract.Emit

open Rust Schema

lemma plainIdentifier_suffixed {base : String} (h : PlainIdentifier base) (n : ℕ) :
    PlainIdentifier (suffixed base n) := by
  cases n with
  | zero => exact h
  | succ n =>
    have hdigits : (toString (n + 1)).toList.all isPlainChar = true := by
      rw [List.all_eq_true]
      intro c hc
      rw [Nat.toString_eq_repr, Nat.toList_repr] at hc
      have hdigit := Nat.isDigit_of_mem_toDigits (by decide) (by decide) hc
      refine isPlainChar_of_alphanumeric ?_
      rw [Text.isAsciiAlphanumeric_iff]
      simp only [Char.isDigit, ge_iff_le, Bool.and_eq_true, decide_eq_true_eq,
        UInt32.le_iff_toNat_le] at hdigit
      exact .inr (.inr hdigit)
    exact (h.append (by decide)).append hdigits

end WireContract.Emit
