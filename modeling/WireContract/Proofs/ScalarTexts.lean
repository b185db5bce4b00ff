import Mathlib.Algebra.GroupWithZero.Nat
import Mathlib.Data.Int.Basic
import Mathlib.Tactic.Common
import WireContract.Wire.Base64
import WireContract.Wire.Instant
import WireContract.Wire.Uuid

/-!
# Scalars that read back from their texts

Identifiers, binary payloads and points in time travel as texts.  Each text that is written is read
back as the value it was written for: `Uuid.parse?_text`, `Base64.decode?_encode` and
`Instant.parse?_text`.
-/

namespace WireContract.Wire

open Text

/-! ## Identifiers -/

namespace Uuid

lemma value?_digit (n : Fin 16) : value? (digit n) = some n := by
  revert n
  decide

/-- No digit is a brace or the first letter of the mark before an identifier. -/
lemma digit_ne (n : Fin 16) : digit n ≠ '\x7b' ∧ asciiLower (digit n) ≠ 'u' := by
  revert n
  decide

/-- The hyphens come off where they were put. -/
lemma unhyphenated?_hyphenated {groups : List ℕ} {cs : List Char} (h : groups.sum ≤ cs.length) :
    unhyphenated? groups (hyphenated groups cs) = some cs := by
  induction groups generalizing cs with
  | nil => rfl
  | cons n ns ih =>
    rw [List.sum_cons] at h
    have hlen : (cs.take n).length = n := List.length_take_of_le (by omega)
    have hdrop : (hyphenated (n :: ns) cs).drop n = '-' :: hyphenated ns (cs.drop n) :=
      List.drop_left' hlen
    have htake : (hyphenated (n :: ns) cs).take n = cs.take n := List.take_left' hlen
    rw [unhyphenated?, hdrop, htake]
    simp only
    rw [ih (by rw [List.length_drop]; omega)]
    simp

lemma length_hyphenated (groups : List ℕ) (cs : List Char) :
    (hyphenated groups cs).length = cs.length + groups.length := by
  induction groups generalizing cs with
  | nil => rfl
  | cons n ns ih =>
    rw [hyphenated, List.length_append, List.length_cons, ih, List.length_take, List.length_drop,
      List.length_cons]
    omega

lemma ofDigits?_digits (u : Uuid) : ofDigits? (u.digits.map digit) = some u := by
  have hmap : (u.digits.map digit).mapM value? = some u.digits := by
    induction u.digits with
    | nil => rfl
    | cons d ds ih => simp [List.mapM_cons, value?_digit, ih]
  rw [ofDigits?, hmap]
  simp [u.length_digits]

/-- An identifier is read back from its text. -/
theorem parse?_text (u : Uuid) : parse? u.text = some u := by
  have hsum : groups.sum ≤ (u.digits.map digit).length := by
    rw [List.length_map, u.length_digits]
    decide
  obtain ⟨d, ds, hds⟩ : ∃ d ds, u.digits = d :: ds := by
    cases h : u.digits with
    | nil => have := u.length_digits; rw [h] at this; cases this
    | cons d ds => exact ⟨d, ds, rfl⟩
  obtain ⟨rest, hhead⟩ : ∃ rest, hyphenated groups (u.digits.map digit) = digit d :: rest := by
    rw [hds]
    exact ⟨_, rfl⟩
  have hlen : (hyphenated groups (u.digits.map digit)).length ≠ 32 := by
    rw [length_hyphenated, List.length_map, u.length_digits]
    decide
  -- the first character is a digit, so neither a brace nor the mark stands in front
  have hbraces : inBraces? (hyphenated groups (u.digits.map digit)) = none := by
    rw [hhead, inBraces?]
    exact fun cs h => (digit_ne d).1 (List.cons.inj h).1
  have hurn : startsWithUrn (hyphenated groups (u.digits.map digit)) = false := by
    rw [hhead, startsWithUrn, beq_eq_false_iff_ne]
    intro h
    exact (digit_ne d).2 (List.cons.inj h).1
  rw [parse?, text, String.toList_ofList]
  simp only [hbraces, hurn, beq_iff_eq, hlen, if_false, Bool.false_eq_true]
  rw [ofHyphenated?, unhyphenated?_hyphenated hsum]
  exact ofDigits?_digits u

end Uuid

/-! ## Binary payloads -/

namespace Base64

lemma value?_digit {n : ℕ} (h : n < 64) : value? (digit n) = some n := by
  revert n
  decide

lemma digit_ne_fill {n : ℕ} (h : n < 64) : digit n ≠ '=' := by
  revert n
  decide

lemma ofNat_eq {n : ℕ} {b : UInt8} (h : n % 256 = b.toNat) : UInt8.ofNat n = b := by
  rw [← UInt8.toNat_inj, UInt8.toNat_ofNat']
  exact h

/-- A group of four digits gives three bytes. -/
lemma decodeChars_group {v₁ v₂ v₃ v₄ : ℕ} (h₁ : v₁ < 64) (h₂ : v₂ < 64) (h₃ : v₃ < 64)
    (h₄ : v₄ < 64) {cs : List Char} {bytes : List UInt8} (hcs : decodeChars cs = some bytes) :
    decodeChars (digit v₁ :: digit v₂ :: digit v₃ :: digit v₄ :: cs) =
      some (UInt8.ofNat ((((v₁ * 64 + v₂) * 64 + v₃) * 64 + v₄) / 65536) ::
        UInt8.ofNat ((((v₁ * 64 + v₂) * 64 + v₃) * 64 + v₄) / 256) ::
        UInt8.ofNat (((v₁ * 64 + v₂) * 64 + v₃) * 64 + v₄) :: bytes) := by
  rw [decodeChars]
  · simp [value?_digit, h₁, h₂, h₃, h₄, hcs]
  · intro _ h _
    exact digit_ne_fill h₄ h
  · intro h _
    exact digit_ne_fill h₄ h

lemma decodeChars_encodeChars (bytes : List UInt8) :
    decodeChars (encodeChars bytes) = some bytes := by
  induction bytes using encodeChars.induct with
  | case1 => rfl
  | case2 a =>
    have ha := a.toNat_lt
    rw [encodeChars, decodeChars]
    simp only [value?_digit (show a.toNat * 16 / 64 < 64 by omega),
      value?_digit (show a.toNat * 16 % 64 < 64 by omega), Option.bind_eq_bind, Option.bind_some]
    rw [if_pos (beq_iff_eq.2 (by omega)), ofNat_eq (b := a) (by omega)]
  | case3 a b =>
    have ha := a.toNat_lt
    have hb := b.toNat_lt
    rw [encodeChars, decodeChars]
    · simp only [value?_digit (show (a.toNat * 256 + b.toNat) * 4 / 4096 < 64 by omega),
        value?_digit (show (a.toNat * 256 + b.toNat) * 4 / 64 % 64 < 64 by omega),
        value?_digit (show (a.toNat * 256 + b.toNat) * 4 % 64 < 64 by omega),
        Option.bind_eq_bind, Option.bind_some]
      rw [if_pos (beq_iff_eq.2 (by omega)), ofNat_eq (b := a) (by omega),
        ofNat_eq (b := b) (by omega)]
    · exact digit_ne_fill (by omega)
  | case4 a b c rest ih =>
    have ha := a.toNat_lt
    have hb := b.toNat_lt
    have hc := c.toNat_lt
    rw [encodeChars, decodeChars_group (by omega) (by omega) (by omega) (by omega) ih]
    rw [ofNat_eq (b := a) (by omega), ofNat_eq (b := b) (by omega), ofNat_eq (b := c) (by omega)]

/-- Bytes are read back from their text. -/
theorem decode?_encode (bytes : List UInt8) : decode? (encode bytes) = some bytes := by
  rw [decode?, encode, String.toList_ofList]
  exact decodeChars_encodeChars bytes

end Base64

/-! ## Points in time -/

namespace Instant

/-- Text that no digit begins. -/
def EndsNumber (cs : List Char) : Prop :=
  cs.takeWhile isAsciiDigit = []

lemma endsNumber_cons {c : Char} (h : isAsciiDigit c = false) (cs : List Char) :
    EndsNumber (c :: cs) := by
  rw [EndsNumber, List.takeWhile_cons_of_neg (by simp [h])]

lemma trimLeft_cons {c : Char} (h : isBlank c = false) (cs : List Char) :
    trimLeft (c :: cs) = c :: cs := by
  rw [trimLeft, List.dropWhile_cons_of_neg (by simp [h])]

lemma isBlank_of_isDigit {c : Char} (h : isAsciiDigit c = true) : isBlank c = false := by
  have hc : 48 ≤ c.toNat ∧ c.toNat ≤ 57 := by
    simpa [isAsciiDigit, Char.le_def, UInt32.le_iff_toNat_le] using h
  simp only [isBlank, Bool.or_eq_false_iff, Bool.and_eq_false_iff, decide_eq_false_iff_not,
    beq_eq_false_iff_ne]
  omega

/-! ### Decimal digits -/

lemma numeral_eq (cs : List Char) : numeral cs = Nat.ofDigitChars 10 cs 0 := by
  simp [numeral, Nat.ofDigitChars, Nat.mul_comm]

lemma numeral_append_zeros (cs : List Char) (n : ℕ) :
    numeral (cs ++ List.replicate n '0') = 10 ^ n * numeral cs := by
  rw [numeral_eq, numeral_eq, Nat.ofDigitChars_append, Nat.ofDigitChars_replicate_zero]

lemma toList_padded (width n : ℕ) : (padded width n).toList =
    List.replicate (width - (Nat.toDigits 10 n).length) '0' ++ Nat.toDigits 10 n := by
  rw [padded, String.toList_ofList]

lemma numeral_padded (width n : ℕ) : numeral (padded width n).toList = n := by
  rw [toList_padded, numeral_eq, Nat.ofDigitChars_append, Nat.ofDigitChars_replicate_zero,
    Nat.mul_zero, Nat.ofDigitChars_toDigits (by decide) (by decide)]

lemma isDigit_of_mem_padded {width n : ℕ} {c : Char} (h : c ∈ (padded width n).toList) :
    isAsciiDigit c = true := by
  rw [toList_padded, List.mem_append] at h
  obtain h | h := h
  · rw [List.eq_of_mem_replicate h]
    rfl
  · exact Nat.isDigit_of_mem_toDigits (by decide) (by decide) h

lemma padded_ne_nil (width n : ℕ) : (padded width n).toList ≠ [] := by
  rw [toList_padded]
  exact List.append_ne_nil_of_right_ne_nil _ Nat.toDigits_ne_nil

lemma length_padded {width n : ℕ} (hwidth : 0 < width) (h : n < 10 ^ width) :
    (padded width n).toList.length = width := by
  have := (Nat.length_toDigits_le_iff (by decide) hwidth).2 h
  rw [toList_padded, List.length_append, List.length_replicate]
  omega

lemma takeWhile_padded (width n : ℕ) {rest : List Char} (hrest : EndsNumber rest) :
    ((padded width n).toList ++ rest).takeWhile isAsciiDigit = (padded width n).toList := by
  rw [List.takeWhile_append_of_pos fun c hc => isDigit_of_mem_padded hc, hrest, List.append_nil]

/-! ### The parts of a text -/

lemma number_padded {limit : Option ℕ} {width n : ℕ} {rest : List Char} (hrest : EndsNumber rest)
    (hlimit : ∀ m ∈ limit, (padded width n).toList.length ≤ m) :
    number limit ((padded width n).toList ++ rest) = some (n, rest) := by
  have hne := List.isEmpty_eq_false_iff.2 (padded_ne_nil width n)
  unfold number
  rw [takeWhile_padded width n hrest]
  cases limit with
  | none => simp only [hne, Bool.false_eq_true, if_false, numeral_padded, List.drop_left]
  | some m =>
    simp only [List.take_of_length_le (hlimit m rfl), hne, Bool.false_eq_true, if_false,
      numeral_padded, List.drop_left]

lemma exists_padded_eq_cons (width n : ℕ) :
    ∃ c cs, (padded width n).toList = c :: cs ∧ isAsciiDigit c = true := by
  cases h : (padded width n).toList with
  | nil => exact absurd h (padded_ne_nil width n)
  | cons c cs => exact ⟨c, cs, rfl, isDigit_of_mem_padded (h ▸ List.mem_cons_self)⟩

lemma trimLeft_padded (width n : ℕ) (rest : List Char) :
    trimLeft ((padded width n).toList ++ rest) = (padded width n).toList ++ rest := by
  obtain ⟨c, cs, h, hc⟩ := exists_padded_eq_cons width n
  rw [h]
  exact trimLeft_cons (isBlank_of_isDigit hc) _

lemma twoDigits_padded {n : ℕ} {rest : List Char} (hn : n < 100) (hrest : EndsNumber rest) :
    twoDigits ((padded 2 n).toList ++ rest) = some (n, rest) := by
  rw [twoDigits, trimLeft_padded, number_padded hrest]
  rintro _ ⟨⟩
  exact Nat.le_of_eq (length_padded (by decide) hn)

lemma separator_cons {sep : Char} (h : isBlank sep = false) (cs : List Char) :
    separator sep (sep :: cs) = some cs := by
  simp [separator, trimLeft_cons h]

lemma year_yearText (y : ℤ) {rest : List Char} (hrest : EndsNumber rest) :
    year ((yearText y).toList ++ rest) = some (y, rest) := by
  have hsigned : ∀ width, number none ((padded width y.natAbs).toList ++ rest) =
      some (y.natAbs, rest) := fun width => number_padded hrest (by rintro _ ⟨⟩)
  rw [yearText]
  split
  case isTrue h =>
    have hy : 0 ≤ y ∧ y ≤ 9999 := by simpa using h
    have hfour := @number_padded (some 4) 4 y.toNat rest hrest (by
      rintro _ ⟨⟩
      exact Nat.le_of_eq (length_padded (by decide) (by omega)))
    obtain ⟨c, cs, hcons, hc⟩ := exists_padded_eq_cons 4 y.toNat
    rw [hcons] at hfour
    rw [year, trimLeft_padded, hcons]
    split
    case h_1 heq => exact absurd hc (by rw [(List.cons.inj heq).1]; decide)
    case h_2 heq => exact absurd hc (by rw [(List.cons.inj heq).1]; decide)
    case h_3 => simp only [hfour, Option.map_some, Int.toNat_of_nonneg hy.1]
  case isFalse h =>
    have hy : y < 0 ∨ 9999 < y := by
      simp only [Bool.and_eq_true, decide_eq_true_eq] at h
      omega
    split
    case isTrue hneg =>
      rw [String.toList_append, year]
      simp only [show "-".toList = ['-'] from rfl, List.cons_append, List.nil_append]
      rw [trimLeft_cons (by decide)]
      simp only [hsigned, Option.map_some, Option.some.injEq, Prod.mk.injEq, and_true]
      omega
    case isFalse hpos =>
      rw [String.toList_append, year]
      simp only [show "+".toList = ['+'] from rfl, List.cons_append, List.nil_append]
      rw [trimLeft_cons (by decide)]
      simp only [hsigned, Option.map_some, Option.some.injEq, Prod.mk.injEq, and_true]
      omega

lemma fraction_fractionText {nanos : ℕ} (h : nanos ≤ 999999999) {rest : List Char}
    (hrest : EndsNumber rest) (hpoint : ∀ cs, rest ≠ '.' :: cs) :
    fraction ((fractionText nanos).toList ++ rest) = some (nanos, rest) := by
  have hdigits : ∀ width n, 0 < width → width ≤ 9 → n < 10 ^ width →
      fraction (("." ++ padded width n).toList ++ rest) = some (10 ^ (9 - width) * n, rest) := by
    intro width n hpos hwidth hn
    have hlen := length_padded hpos hn
    have hne := List.isEmpty_eq_false_iff.2 (padded_ne_nil width n)
    rw [String.toList_append, show ".".toList = ['.'] from rfl, List.cons_append, List.nil_append,
      List.cons_append, fraction]
    simp only [takeWhile_padded width n hrest, hne, Bool.false_eq_true, if_false]
    rw [List.take_of_length_le (by omega), numeral_append_zeros, numeral_padded, List.drop_left,
      hlen]
  rw [fractionText]
  split
  case isTrue h0 =>
    rw [String.toList_empty, List.nil_append]
    unfold fraction
    split
    · exact absurd rfl (hpoint _)
    · rw [beq_iff_eq.1 h0]
  case isFalse =>
    split
    case isTrue h6 =>
      have := beq_iff_eq.1 h6
      rw [hdigits 3 _ (by decide) (by decide) (by omega), show 10 ^ (9 - 3) = 1000000 from rfl]
      congr 2
      omega
    case isFalse =>
      split
      case isTrue h3 =>
        have := beq_iff_eq.1 h3
        rw [hdigits 6 _ (by decide) (by decide) (by omega), show 10 ^ (9 - 6) = 1000 from rfl]
        congr 2
        omega
      case isFalse =>
        rw [hdigits 9 _ (by decide) (by decide) (by omega), Nat.sub_self, Nat.pow_zero,
          Nat.one_mul]

lemma offset_utc : offset ['Z'] = some (0, []) := rfl

lemma earlier_zero {m : Moment} (hhour : m.hour ≤ 23) (hminute : m.minute ≤ 59) :
    m.earlier 0 = m := by
  have htotal : ((m.hour * 60 + m.minute : ℤ) - 0) % Moment.dayMinutes =
      (m.hour * 60 + m.minute : ℕ) := by
    rw [Moment.dayMinutes]
    omega
  have hday : ¬ ((m.hour * 60 + m.minute : ℤ) - 0 < 0) := by omega
  have hnext : (m.hour * 60 + m.minute : ℤ) - 0 < Moment.dayMinutes := by
    rw [Moment.dayMinutes]
    omega
  unfold Moment.earlier
  simp only [htotal, if_neg hday, if_pos hnext, Int.toNat_natCast]
  rw [show (m.hour * 60 + m.minute) / 60 = m.hour by omega,
    show (m.hour * 60 + m.minute) % 60 = m.minute by omega]

lemma toList_text (t : Instant) : t.text.toList =
    (yearText t.val.year).toList ++ '-' :: ((padded 2 t.val.month).toList ++ '-' ::
      ((padded 2 t.val.day).toList ++ 'T' :: ((padded 2 t.val.hour).toList ++ ':' ::
        ((padded 2 t.val.minute).toList ++ ':' :: ((padded 2 t.val.second).toList ++
          ((fractionText t.val.nanos).toList ++ ['Z'])))))) := by
  have hdash : "-".toList = ['-'] := rfl
  have htime : "T".toList = ['T'] := rfl
  have hcolon : ":".toList = [':'] := rfl
  have hzone : "Z".toList = ['Z'] := rfl
  simp only [text, String.toList_append, List.append_assoc, hdash, htime, hcolon, hzone,
    List.cons_append, List.nil_append]

lemma endsNumber_fractionText (nanos : ℕ) :
    EndsNumber ((fractionText nanos).toList ++ ['Z']) := by
  have hpoint : ∀ s : String, EndsNumber (("." ++ s).toList ++ ['Z']) := by
    intro s
    rw [String.toList_append]
    exact endsNumber_cons (c := '.') (by decide) _
  rw [fractionText]
  split
  · exact endsNumber_cons (c := 'Z') (by decide) _
  · split
    · exact hpoint _
    · split <;> exact hpoint _

lemma localMoment_text (t : Instant) : localMoment t.text.toList = some (t.val, ['Z']) := by
  obtain ⟨m, hm⟩ := t
  simp only [Moment.isValid, Bool.and_eq_true, decide_eq_true_eq] at hm
  have hday : m.day < 100 := by
    have : monthLength m.year m.month ≤ 31 := by
      unfold monthLength
      split_ifs <;> omega
    omega
  have hdash : ∀ cs, EndsNumber ('-' :: cs) := endsNumber_cons (by decide)
  have hcolon : ∀ cs, EndsNumber (':' :: cs) := endsNumber_cons (by decide)
  rw [toList_text, localMoment, year_yearText _ (hdash _)]
  simp only [Option.bind_eq_bind, Option.bind_some]
  rw [separator_cons (by decide), Option.bind_some, twoDigits_padded (by omega) (hdash _),
    Option.bind_some]
  simp only
  rw [separator_cons (by decide), Option.bind_some,
    twoDigits_padded hday (endsNumber_cons (by decide) _), Option.bind_some]
  simp only [List.head?_cons, Option.map_some, List.tail_cons, Option.bind_some]
  rw [if_neg (by decide), twoDigits_padded (by omega) (hcolon _)]
  simp only [Option.bind_some]
  rw [separator_cons (by decide), Option.bind_some, twoDigits_padded (by omega) (hcolon _)]
  simp only [Option.bind_some]
  rw [separator_cons (by decide), Option.bind_some,
    twoDigits_padded (by omega) (endsNumber_fractionText _)]
  simp only [Option.bind_some]
  rw [fraction_fractionText (by omega) (endsNumber_cons (by decide) _) (by simp)]
  rfl

/-- A point in time is read back from its text. -/
theorem parse?_text (t : Instant) : parse? t.text = some t := by
  have hm := t.property
  simp only [Moment.isValid, Bool.and_eq_true, decide_eq_true_eq] at hm
  rw [parse?, localMoment_text]
  simp only [Option.bind_eq_bind, Option.bind_some]
  rw [trimLeft_cons (by decide), offset_utc]
  simp only [Option.bind_some]
  rw [if_neg (by simp [trimLeft, t.property]), if_neg (by decide),
    earlier_zero (by omega) (by omega), ofMoment?, dif_pos t.property]

end Instant

end WireContract.Wire
