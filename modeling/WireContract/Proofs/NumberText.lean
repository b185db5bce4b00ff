import Mathlib.Data.List.DropRight
import Mathlib.Data.List.TakeDrop
import Mathlib.Tactic.Common
import WireContract.Json.Draft
import WireContract.Json.Text

/-!
# The text of a number is a numeral

A `Numeral` is what the reader of numbers takes apart: whole digits, perhaps a fraction, perhaps an
exponent.  `numeral_chars` says that it is read to its end, whatever follows that does not go on
with it.  The text of every number is a numeral, also that of a double: its shortest decimal has
digits (`shortest_pos`), because the grids that are tried are never coarser than the first digit.

Integers of 64 bits are read back as they are.  Which doubles are is a matter of rounding;
`Number.reread` is what the reader makes of the text.
-/

namespace WireContract.Json

/-! ## Numerals -/

/-- The parts of a number after its sign. -/
structure Numeral where
  whole : List Char
  fraction : Option (List Char)
  /-- Whether the exponent is negative, and its digits. -/
  exponent : Option (Bool × List Char)

/-- Digits, at least one. -/
def AreDigits (ds : List Char) : Prop :=
  ds ≠ [] ∧ ∀ c ∈ ds, c.isDigit = true

/-- Text that does not go on with a numeral. -/
def EndsNumeral (cs : List Char) : Prop :=
  ∀ c ∈ cs.head?, c.isDigit = false ∧ c ≠ '.' ∧ c ≠ 'e' ∧ c ≠ 'E'

namespace Numeral

/-- The text of a numeral. -/
def chars (n : Numeral) : List Char :=
  n.whole ++ (n.fraction.elim [] ('.' :: ·) ++
    n.exponent.elim [] fun e => 'e' :: (if e.1 then '-' else '+') :: e.2)

/-- The power of ten of the exponent. -/
def power (n : Numeral) : Option Int :=
  n.exponent.map fun e =>
    let m : Int := e.2.foldl (fun n d => n * 10 + (d.toNat - 48)) 0
    if e.1 then -m else m

/-- The parts have digits, and the whole digits do not begin with an idle zero. -/
structure WellFormed (n : Numeral) : Prop where
  whole : AreDigits n.whole
  leading : ∀ c cs, n.whole ≠ '0' :: c :: cs
  fraction : ∀ ds ∈ n.fraction, AreDigits ds
  exponent : ∀ e ∈ n.exponent, AreDigits e.2

lemma exists_chars_eq_cons {n : Numeral} (hn : n.WellFormed) :
    ∃ c cs, n.chars = c :: cs ∧ c.isDigit = true := by
  obtain ⟨c, cs, hc⟩ := List.exists_cons_of_ne_nil hn.whole.1
  refine ⟨c, _, by rw [chars, hc, List.cons_append], hn.whole.2 c (by simp [hc])⟩

end Numeral

namespace Draft

lemma digits_append {ds rest : List Char} (hds : ∀ c ∈ ds, c.isDigit = true)
    (hrest : ∀ c ∈ rest.head?, c.isDigit = false) : digits (ds ++ rest) = (ds, rest) := by
  have htake : rest.takeWhile Char.isDigit = [] := by
    cases rest with
    | nil => rfl
    | cons c cs => rw [List.takeWhile_cons_of_neg (by simp [hrest c rfl])]
  have hdrop : rest.dropWhile Char.isDigit = rest := by
    cases rest with
    | nil => rfl
    | cons c cs => rw [List.dropWhile_cons_of_neg (by simp [hrest c rfl])]
  rw [digits, List.span_eq_takeWhile_dropWhile, List.takeWhile_append_of_pos hds,
    List.dropWhile_append_of_pos hds, htake, hdrop, List.append_nil]

lemma exponentPart_none {rest : List Char} (hrest : EndsNumeral rest) :
    exponentPart rest = .ok (none, rest) := by
  cases rest with
  | nil => rfl
  | cons c cs =>
    obtain ⟨-, -, he, hE⟩ := hrest c rfl
    simp [exponentPart, he, hE]

lemma exponentPart_some {negative : Bool} {ds rest : List Char} (hds : AreDigits ds)
    (hrest : EndsNumeral rest) (whole : List Char) (fraction : Option (List Char)) :
    exponentPart ('e' :: (if negative then '-' else '+') :: (ds ++ rest)) =
      .ok ((⟨whole, fraction, some (negative, ds)⟩ : Numeral).power, rest) := by
  have hdigits := digits_append hds.2 fun c hc => (hrest c hc).1
  obtain ⟨d, ds, rfl⟩ := List.exists_cons_of_ne_nil hds.1
  rw [List.cons_append] at hdigits
  cases negative with
  | true => simp [exponentPart, hdigits, Numeral.power]
  | false => simp [exponentPart, hdigits, Numeral.power]

lemma fractionPart_none {rest : List Char} (hrest : ∀ cs, rest ≠ '.' :: cs) :
    fractionPart rest = .ok (none, rest) := by
  unfold fractionPart
  split
  · exact absurd rfl (hrest _)
  · rfl

lemma fractionPart_some {ds rest : List Char} (hds : AreDigits ds)
    (hrest : ∀ c ∈ rest.head?, c.isDigit = false) :
    fractionPart ('.' :: (ds ++ rest)) = .ok (some ds, rest) := by
  have hdigits := digits_append hds.2 hrest
  obtain ⟨d, ds, rfl⟩ := List.exists_cons_of_ne_nil hds.1
  rw [List.cons_append] at hdigits
  simp [fractionPart, hdigits]

/-- A numeral is read to its end. -/
lemma numeral_chars {n : Numeral} (hn : n.WellFormed) (negative : Bool) {rest : List Char}
    (hrest : EndsNumeral rest) :
    numeral negative (n.chars ++ rest) =
      .more (.num (number negative n.whole n.fraction n.power)) rest := by
  obtain ⟨whole, fraction, exponent⟩ := n
  -- what stands after the whole digits, and after the fraction
  set tail := exponent.elim [] fun e : Bool × List Char =>
    'e' :: (if e.1 then '-' else '+') :: e.2 with htail
  have htailHead : ∀ c ∈ (tail ++ rest).head?, c.isDigit = false ∧ c ≠ '.' := by
    cases exponent with
    | none => exact fun c hc => ⟨(hrest c hc).1, (hrest c hc).2.1⟩
    | some e =>
      rintro c ⟨⟩
      decide
  have hexponent : exponentPart (tail ++ rest) =
      .ok ((⟨whole, fraction, exponent⟩ : Numeral).power, rest) := by
    cases exponent with
    | none => exact exponentPart_none hrest
    | some e => exact exponentPart_some (hn.exponent e rfl) hrest whole fraction
  have hfraction : fractionPart (fraction.elim [] ('.' :: ·) ++ (tail ++ rest)) =
      .ok (fraction, tail ++ rest) := by
    cases fraction with
    | none =>
      refine fractionPart_none fun cs heq => ?_
      have hpoint := htailHead '.' (by rw [← List.nil_append (tail ++ rest)]; exact heq ▸ rfl)
      exact hpoint.2 rfl
    | some ds => exact fractionPart_some (hn.fraction ds rfl) fun c hc => (htailHead c hc).1
  have hwhole : digits (whole ++ (fraction.elim [] ('.' :: ·) ++ (tail ++ rest))) =
      (whole, fraction.elim [] ('.' :: ·) ++ (tail ++ rest)) := by
    refine digits_append hn.whole.2 ?_
    cases fraction with
    | none => exact fun c hc => (htailHead c hc).1
    | some ds => simp
  unfold numeral
  rw [Numeral.chars, List.append_assoc, List.append_assoc, ← htail, hwhole]
  split
  case h_1 heq => exact absurd (congrArg Prod.fst heq) hn.whole.1
  case h_2 heq => exact absurd (congrArg Prod.fst heq) (hn.leading _ _)
  case h_3 heq =>
    obtain ⟨rfl, rfl⟩ := Prod.mk.inj heq
    simp only [hfraction, hexponent]

/-! ## Signed numerals -/

/-- A numeral after its sign. -/
def signed (negative : Bool) (n : Numeral) : List Char :=
  (if negative then ['-'] else []) ++ n.chars

lemma isSpace_of_isDigit {c : Char} (h : c.isDigit = true) : isSpace c = false := by
  simp only [isSpace, Bool.or_eq_false_iff, beq_eq_false_iff_ne]
  refine ⟨⟨⟨?_, ?_⟩, ?_⟩, ?_⟩ <;>
  · rintro rfl
    cases h

lemma skipSpace_cons {c : Char} (h : isSpace c = false) (cs : List Char) :
    skipSpace (c :: cs) = c :: cs := by
  rw [skipSpace, List.dropWhile_cons_of_neg (by simp [h])]

/-- A signed numeral is read as the number of its parts. -/
lemma value_signed {n : Numeral} (hn : n.WellFormed) (negative : Bool) (fuel : ℕ)
    {rest : List Char} (hrest : EndsNumeral rest) :
    value (fuel + 1) (signed negative n ++ rest) =
      (.num (number negative n.whole n.fraction n.power), some rest) := by
  have hread := numeral_chars hn negative hrest
  rw [value]
  cases negative with
  | true =>
    rw [signed, if_pos rfl, List.append_assoc, List.cons_append, List.nil_append,
      skipSpace_cons (by decide)]
    simp [hread, Scan.toRead]
  | false =>
    obtain ⟨c, cs, hchars, hc⟩ := Numeral.exists_chars_eq_cons hn
    have hne : c ≠ 'n' ∧ c ≠ 't' ∧ c ≠ 'f' ∧ c ≠ '-' := by
      refine ⟨?_, ?_, ?_, ?_⟩ <;>
      · rintro rfl
        cases hc
    rw [hchars, List.cons_append] at hread
    rw [signed, if_neg (by decide), List.nil_append, hchars, List.cons_append,
      skipSpace_cons (isSpace_of_isDigit hc)]
    simp [hne, hc, hread, Scan.toRead]

end Draft

/-! ## Integers -/

lemma areDigits_toDigits (n : ℕ) : AreDigits (Nat.toDigits 10 n) :=
  ⟨Nat.toDigits_ne_nil, fun _ hc => Nat.isDigit_of_mem_toDigits (by decide) (by decide) hc⟩

/-- The digits of a positive number do not begin with zero. -/
lemma toDigits_ne_zero_cons {n : ℕ} (hn : 0 < n) (cs : List Char) :
    Nat.toDigits 10 n ≠ '0' :: cs := by
  induction n using Nat.strong_induction_on generalizing cs with
  | _ n ih =>
    rw [Nat.toDigits_eq_if (by decide)]
    split
    case isTrue hlt =>
      intro heq
      have hdigit : ∀ m < 10, 0 < m → m.digitChar ≠ '0' := by decide
      exact hdigit n hlt hn (List.cons.inj heq).1
    case isFalse hge =>
      intro heq
      obtain ⟨c, ds, hds⟩ :=
        List.exists_cons_of_ne_nil (Nat.toDigits_ne_nil (b := 10) (n := n / 10))
      rw [hds, List.cons_append] at heq
      exact ih (n / 10) (by omega) (by omega) ds (by rw [hds, (List.cons.inj heq).1])

lemma toDigits_leading (n : ℕ) (c : Char) (cs : List Char) :
    Nat.toDigits 10 n ≠ '0' :: c :: cs := by
  obtain rfl | hn := Nat.eq_zero_or_pos n
  · simp
  · exact toDigits_ne_zero_cons hn _

/-- The numeral of a natural number. -/
def natNumeral (n : ℕ) : Numeral :=
  ⟨Nat.toDigits 10 n, none, none⟩

lemma wellFormed_natNumeral (n : ℕ) : (natNumeral n).WellFormed where
  whole := areDigits_toDigits n
  leading := toDigits_leading n
  fraction := by simp [natNumeral]
  exponent := by simp [natNumeral]

lemma toList_int_text (n : Int) :
    (Number.int n).text.toList = Draft.signed (n < 0) (natNumeral n.natAbs) := by
  have hchars : ∀ m : ℕ, (natNumeral m).chars = Nat.toDigits 10 m := by
    intro m
    simp [Numeral.chars, natNumeral]
  rw [Number.text, Draft.signed, hchars]
  cases n with
  | ofNat m =>
    have htext : toString (Int.ofNat m) = Nat.repr m := rfl
    rw [htext, Nat.toList_repr, if_neg (by simp)]
    rfl
  | negSucc m =>
    have htext : toString (Int.negSucc m) = "-" ++ Nat.repr (m + 1) := rfl
    rw [htext, String.toList_append, Nat.toList_repr, if_pos (by simp [Int.negSucc_lt_zero])]
    rfl

lemma gather_eq {ds : List Char} {s : ℕ} (h : Nat.ofDigitChars 10 ds s < Draft.digitLimit) :
    Draft.gather s ds = (Nat.ofDigitChars 10 ds s, ds.length, 0) := by
  induction ds generalizing s with
  | nil => rfl
  | cons d ds ih =>
    rw [Nat.ofDigitChars_cons, Nat.mul_comm, show '0'.toNat = 48 from rfl] at h ⊢
    have hle : s * 10 + (d.toNat - 48) ≤ Nat.ofDigitChars 10 ds (s * 10 + (d.toNat - 48)) := by
      rw [Nat.ofDigitChars_eq_ofDigitChars_zero]
      have := Nat.mul_le_mul_right (s * 10 + (d.toNat - 48))
        (Nat.one_le_pow ds.length 10 (by decide))
      omega
    rw [Draft.gather, if_pos (hle.trans_lt h), ih h]
    rfl

/-- Integers of 64 bits are read back. -/
lemma number_natNumeral {n : Int} (hleast : -9223372036854775808 ≤ n)
    (hgreatest : n < 18446744073709551616) :
    Draft.number (n < 0) (natNumeral n.natAbs).whole none none = .ok (.int n) := by
  have hsize : Nat.ofDigitChars 10 (Nat.toDigits 10 n.natAbs) 0 < Draft.digitLimit := by
    rw [Nat.ofDigitChars_ten_toDigits, Draft.digitLimit]
    omega
  have hgather := gather_eq hsize
  rw [Nat.ofDigitChars_ten_toDigits] at hgather
  rw [Draft.number, natNumeral, hgather]
  generalize hm : n.natAbs = m
  by_cases hn : n < 0
  · have hsmall : ¬ Draft.negativeLimit < m := by
      rw [Draft.negativeLimit]
      omega
    have habs : -(m : Int) = n := by omega
    simp [hn, hsmall, habs, show m ≠ 0 by omega]
  · have habs : (m : Int) = n := by omega
    simp [hn, habs]

end WireContract.Json

namespace WireContract.Double

/-! ## The digits of a shortest decimal -/

/-- The decimal `10 ^ e` is at most `num / den`. -/
def PowerLE (e : Int) (num den : ℕ) : Prop :=
  den * pow10 e.toNat ≤ num * pow10 (-e).toNat

lemma PowerLE.mono {e e' : Int} {num den : ℕ} (h : PowerLE e num den) (hle : e' ≤ e) :
    PowerLE e' num den := by
  unfold PowerLE at h ⊢
  have hpos : den * pow10 e'.toNat ≤ den * pow10 e.toNat :=
    Nat.mul_le_mul_left _ (Nat.pow_le_pow_right (by decide) (by omega))
  have hneg : num * pow10 (-e).toNat ≤ num * pow10 (-e').toNat :=
    Nat.mul_le_mul_left _ (Nat.pow_le_pow_right (by decide) (by omega))
  exact hpos.trans (h.trans hneg)

lemma pow10_zero : pow10 0 = 1 :=
  rfl

lemma lt_pow_length_toDigits (n : ℕ) : n < pow10 (Nat.toDigits 10 n).length :=
  (Nat.length_toDigits_le_iff (by decide) Nat.length_toDigits_pos).1 le_rfl

lemma pow_length_toDigits_le {n : ℕ} (hn : 0 < n) :
    pow10 ((Nat.toDigits 10 n).length - 1) ≤ n := by
  by_contra hlt
  obtain hone | hmore := Nat.eq_zero_or_pos ((Nat.toDigits 10 n).length - 1)
  · rw [hone, pow10_zero] at hlt
    omega
  · have := (Nat.length_toDigits_le_iff (b := 10) (by decide) hmore).2 (Nat.lt_of_not_le hlt)
    omega

/-- The first digit of a number stands before `decimalTop`. -/
lemma powerLE_decimalTop {num den : ℕ} (hnum : 0 < num) (hden : 0 < den) :
    PowerLE (decimalTop num den - 1) num den := by
  unfold PowerLE
  by_cases hwhole : num / den = 0
  · -- the digits of the inverse count the places before the first digit
    have htop : decimalTop num den = 1 - ((Nat.toDigits 10 ((den - 1) / num)).length : Int) := by
      simp [decimalTop, hwhole]
    set places := (Nat.toDigits 10 ((den - 1) / num)).length with hplaces
    have hinverse : (den - 1) / num < pow10 places := lt_pow_length_toDigits _
    have hlt : den - 1 < pow10 places * num := (Nat.div_lt_iff_lt_mul hnum).1 hinverse
    rw [htop, show (1 - (places : Int) - 1).toNat = 0 by omega,
      show (-(1 - (places : Int) - 1)).toNat = places by omega, Nat.mul_comm num, pow10_zero]
    omega
  · have htop : decimalTop num den = ((Nat.toDigits 10 (num / den)).length : Int) := by
      simp [decimalTop, hwhole]
    set places := (Nat.toDigits 10 (num / den)).length with hplaces
    have hle : pow10 (places - 1) ≤ num / den := pow_length_toDigits_le (Nat.pos_of_ne_zero hwhole)
    rw [htop, show ((places : Int) - 1).toNat = places - 1 by omega,
      show (-((places : Int) - 1)).toNat = 0 by
        have : 0 < places := Nat.length_toDigits_pos
        omega]
    calc den * pow10 (places - 1) ≤ den * (num / den) := Nat.mul_le_mul_left _ hle
      _ ≤ num * pow10 0 := by rw [pow10_zero, Nat.mul_one]; exact Nat.mul_div_le num den

lemma pow2_pos (n : ℕ) : 0 < pow2 n :=
  Nat.two_pow_pos n

/-- The neighbours of a double on a grid are the multiples below and above it. -/
lemma exists_gridNeighbours (x : Double) (e : Int) :
    ∃ floor, floor = (if 0 ≤ e then x.units else x.units * pow10 (-e).toNat) /
        (pow2 minExponent * (if 0 ≤ e then pow10 e.toNat else 1)) ∧
      (x.gridNeighbours e = [floor] ∨ x.gridNeighbours e = [floor, floor + 1] ∨
        x.gridNeighbours e = [floor + 1, floor]) := by
  refine ⟨_, rfl, ?_⟩
  unfold gridNeighbours
  dsimp only
  split_ifs
  all_goals simp

/-- The neighbours on a grid that is not coarser than the first digit are not zero. -/
lemma gridNeighbours_pos {x : Double} {e : Int} (h : PowerLE e x.units (pow2 minExponent)) :
    (∀ d ∈ x.gridNeighbours e, 0 < d) ∧ x.gridNeighbours e ≠ [] := by
  obtain ⟨floor, hfloor, hlist⟩ := exists_gridNeighbours x e
  have hpos : 0 < floor := by
    rw [hfloor]
    unfold PowerLE at h
    split_ifs with he
    · rw [show (-e).toNat = 0 by omega, pow10_zero, Nat.mul_one] at h
      exact Nat.div_pos h (Nat.mul_pos (pow2_pos _) (Nat.pow_pos (by decide)))
    · rw [show e.toNat = 0 by omega, pow10_zero] at h
      exact Nat.div_pos h (Nat.mul_pos (pow2_pos _) (by decide))
  obtain heq | heq | heq := hlist <;> simp [heq, hpos]

lemma searchDigits_pos {x : Double} {top : Int}
    (h : PowerLE (top - 1) x.units (pow2 minExponent)) (tries : ℕ) {count : ℕ}
    (hcount : 0 < count) :
    0 < (x.searchDigits top tries count).1 := by
  have hgrid := fun count (hcount : 0 < count) =>
    gridNeighbours_pos (h.mono (show top - (count : ℕ) ≤ top - 1 by omega))
  induction tries generalizing count with
  | zero =>
    obtain ⟨d, ds, hds⟩ := List.exists_cons_of_ne_nil (hgrid count hcount).2
    rw [searchDigits, hds]
    exact (hgrid count hcount).1 d (by simp [hds])
  | succ tries ih =>
    rw [searchDigits]
    split
    case h_1 digits hfind => exact (hgrid count hcount).1 digits (List.mem_of_find?_eq_some hfind)
    case h_2 => exact ih (Nat.succ_pos count)

/-- The shortest decimal of a number other than zero has a digit other than zero. -/
lemma shortest_pos {x : Double} (hx : x.isZero = false) : 0 < x.shortest.1 := by
  have hunits : 0 < x.units := by
    refine Nat.mul_pos (Nat.pos_of_ne_zero ?_) (pow2_pos _)
    simpa [isZero] using hx
  exact searchDigits_pos (powerLE_decimalTop hunits (pow2_pos _)) 17 Nat.one_pos

end WireContract.Double

namespace WireContract.Json

open Double

/-! ## Doubles -/

/-- Digits that a decimal can begin with. -/
def Leading (ds : List Char) : Prop :=
  AreDigits ds ∧ ∀ cs, ds ≠ '0' :: cs

lemma leading_stripZeros {n : ℕ} (hn : 0 < n) : Leading (stripZeros (Nat.toDigits 10 n)).1 := by
  have hkept : (stripZeros (Nat.toDigits 10 n)).1 = (Nat.toDigits 10 n).rdropWhile (· == '0') := rfl
  rw [hkept]
  have hpre := List.rdropWhile_prefix (· == '0') (Nat.toDigits 10 n)
  obtain ⟨d, ds, hds⟩ := List.exists_cons_of_ne_nil (Nat.toDigits_ne_nil (b := 10) (n := n))
  have hd : d ≠ '0' := by
    rintro rfl
    exact toDigits_ne_zero_cons hn ds hds
  refine ⟨⟨?_, fun c hc => (areDigits_toDigits n).2 c (hpre.subset hc)⟩, ?_⟩
  · rw [ne_eq, List.rdropWhile_eq_nil_iff]
    intro hzero
    exact hd (beq_iff_eq.1 (hzero d (by simp [hds])))
  · intro cs hcs
    obtain ⟨rest, hrest⟩ := hpre
    rw [hcs, List.cons_append, hds] at hrest
    exact hd (List.cons.inj hrest).1.symm

lemma areDigits_replicate_append (k : ℕ) {ds : List Char} (hds : AreDigits ds) :
    AreDigits (List.replicate k '0' ++ ds) := by
  refine ⟨List.append_ne_nil_of_right_ne_nil _ hds.1, fun c hc => ?_⟩
  obtain hc | hc := List.mem_append.1 hc
  · rw [List.eq_of_mem_replicate hc]
    rfl
  · exact hds.2 c hc

/-- Digits that a decimal can begin with stay so with more digits after them. -/
lemma Leading.append_zeros {ds : List Char} (hds : Leading ds) (k : ℕ) :
    Leading (ds ++ List.replicate k '0') := by
  obtain ⟨d, tail, rfl⟩ := List.exists_cons_of_ne_nil hds.1.1
  refine ⟨⟨by simp, fun c hc => ?_⟩, fun cs hcs => ?_⟩
  · obtain hc | hc := List.mem_append.1 hc
    · exact hds.1.2 c hc
    · rw [List.eq_of_mem_replicate hc]
      rfl
  · exact hds.2 tail (by rw [(List.cons.inj hcs).1])

lemma Leading.take {ds : List Char} (hds : Leading ds) {k : ℕ} (hk : 0 < k) :
    Leading (ds.take k) := by
  obtain ⟨d, tail, rfl⟩ := List.exists_cons_of_ne_nil hds.1.1
  obtain ⟨k, rfl⟩ := Nat.exists_eq_succ_of_ne_zero hk.ne'
  refine ⟨⟨by simp, fun c hc => hds.1.2 c (List.mem_of_mem_take hc)⟩, fun cs hcs => ?_⟩
  exact hds.2 tail (by rw [(List.cons.inj hcs).1])

/-- Scientific notation of digits. -/
lemma wellFormed_scientific {d : Char} {tail : List Char} (hds : AreDigits (d :: tail))
    (negative : Bool) (e : ℕ) :
    (⟨[d], if tail.isEmpty then none else some tail, some (negative, Nat.toDigits 10 e)⟩ :
      Numeral).WellFormed where
  whole := ⟨by simp, by simpa using hds.2 d (by simp)⟩
  leading := by simp
  fraction := by
    intro ds hfraction
    split_ifs at hfraction with htail
    · cases hfraction
    · cases hfraction
      exact ⟨by simpa using htail, fun c hc => hds.2 c (List.mem_cons_of_mem _ hc)⟩
  exponent := by
    rintro _ ⟨⟩
    exact areDigits_toDigits e

lemma wellFormed_positional {whole fraction : List Char} (hwhole : AreDigits whole)
    (hleading : ∀ c cs, whole ≠ '0' :: c :: cs) (hfraction : AreDigits fraction) :
    (⟨whole, some fraction, none⟩ : Numeral).WellFormed where
  whole := hwhole
  leading := hleading
  fraction := by
    rintro _ ⟨⟩
    exact hfraction
  exponent := by simp

/-- A positive decimal is laid out as a numeral with a fraction or an exponent. -/
lemma exists_numeral_layoutDigits {ds : List Char} (hds : Leading ds) (point : Int) :
    ∃ n : Numeral, n.WellFormed ∧ (layoutDigits doubleStyle ds point).toList = n.chars ∧
      (n.fraction.isSome ∨ n.exponent.isSome) := by
  have hpositional : ∀ whole fraction : List Char, AreDigits whole →
      (∀ c cs, whole ≠ '0' :: c :: cs) → AreDigits fraction →
      ∀ s : String, s.toList = whole ++ '.' :: fraction →
        ∃ n : Numeral, n.WellFormed ∧ s.toList = n.chars ∧
          (n.fraction.isSome ∨ n.exponent.isSome) := by
    intro whole fraction hwhole hleading hfraction s hs
    refine ⟨_, wellFormed_positional hwhole hleading hfraction, ?_, .inl rfl⟩
    simp [hs, Numeral.chars]
  unfold layoutDigits
  dsimp only
  split
  case isTrue =>
    obtain ⟨d, tail, rfl⟩ := List.exists_cons_of_ne_nil hds.1.1
    refine ⟨_, wellFormed_scientific hds.1 (point - 1 < 0) (point - 1).natAbs, ?_, .inr rfl⟩
    have hsign : (if point - 1 < 0 then "-" else doubleStyle.plus).toList =
        [if point - 1 < 0 then '-' else '+'] := by
      split <;> rfl
    generalize point - 1 = exponent at hsign
    cases tail with
    | nil => simp [Numeral.chars, hsign, Nat.toString_eq_repr]
    | cons c tail => simp [Numeral.chars, hsign, Nat.toString_eq_repr]
  case isFalse =>
    split
    case isTrue =>
      refine hpositional ['0'] _ ⟨by simp, by simp⟩ (by simp)
        (areDigits_replicate_append (-point).toNat hds.1) _ ?_
      simp
    case isFalse hpoint =>
      split
      case isTrue hcount =>
        have htake := hds.take (k := point.toNat) (by omega)
        refine hpositional _ (ds.drop point.toNat) htake.1 (fun c cs => htake.2 _) ⟨?_, ?_⟩ _ ?_
        · rw [ne_eq, List.drop_eq_nil_iff]
          omega
        · exact fun c hc => hds.1.2 c (List.mem_of_mem_drop hc)
        · simp
      case isFalse =>
        have hzeros := hds.append_zeros (point - ds.length).toNat
        refine hpositional _ ['0'] hzeros.1 (fun c cs => hzeros.2 _) ⟨by simp, by simp⟩ _ ?_
        simp

lemma exists_numeral_format (x : Double) :
    ∃ n : Numeral, n.WellFormed ∧
      (Number.double x).text.toList = Draft.signed x.negative n ∧
        (n.fraction.isSome ∨ n.exponent.isSome) := by
  have hsign : (if x.negative then "-" else "").toList = if x.negative then ['-'] else [] := by
    split <;> rfl
  cases hzero : x.isZero with
  | true =>
    refine ⟨⟨['0'], some ['0'], none⟩, ?_, ?_, .inl rfl⟩
    · exact wellFormed_positional ⟨by simp, by simp⟩ (by simp) ⟨by simp, by simp⟩
    · simp [Number.text, format, hzero, hsign, Draft.signed, Numeral.chars]
  | false =>
    obtain ⟨n, hn, htext, hkind⟩ := exists_numeral_layoutDigits
      (leading_stripZeros (shortest_pos hzero))
      (x.shortest.2 + (stripZeros (Nat.toDigits 10 x.shortest.1)).2 +
        (stripZeros (Nat.toDigits 10 x.shortest.1)).1.length)
    refine ⟨n, hn, ?_, hkind⟩
    simp only [Number.text, format, hzero, Bool.false_eq_true, if_false, String.toList_append,
      hsign, htext, Draft.signed]

/-! ## Numbers -/

/-- What the reader makes of the text of a number. -/
def Number.reread (n : Number) : Except Fault Number :=
  match Draft.ofText n.text.toList with
  | (.num r, none) => r
  | _ => .error .malformed

lemma endsNumeral_nil : EndsNumeral [] := by
  rintro _ ⟨⟩

lemma Number.reread_eq {n : Number} {negative : Bool} {m : Numeral} (hm : m.WellFormed)
    (htext : n.text.toList = Draft.signed negative m) :
    n.reread = Draft.number negative m.whole m.fraction m.power := by
  have hvalue := Draft.value_signed hm negative (2 * (Draft.signed negative m).length + 1)
    endsNumeral_nil
  rw [List.append_nil] at hvalue
  rw [Number.reread, htext, Draft.ofText, hvalue]
  rfl

/-- The text of every number is a signed numeral. -/
lemma Number.exists_numeral (n : Number) :
    ∃ negative, ∃ m : Numeral, m.WellFormed ∧ n.text.toList = Draft.signed negative m := by
  cases n with
  | int n => exact ⟨_, _, wellFormed_natNumeral _, toList_int_text n⟩
  | double x =>
    obtain ⟨m, hm, htext, -⟩ := exists_numeral_format x
    exact ⟨_, m, hm, htext⟩

/-- The text of a number is read to its end, whatever follows that does not go on with it. -/
theorem Draft.value_numberText (n : Number) (fuel : ℕ) {rest : List Char}
    (hrest : EndsNumeral rest) :
    Draft.value (fuel + 1) (n.text.toList ++ rest) = (.num n.reread, some rest) := by
  obtain ⟨negative, m, hm, htext⟩ := n.exists_numeral
  rw [Number.reread_eq hm htext, htext, Draft.value_signed hm negative fuel hrest]

theorem Number.reread_int {n : Int} (hleast : -9223372036854775808 ≤ n)
    (hgreatest : n < 18446744073709551616) : (Number.int n).reread = .ok (.int n) := by
  rw [Number.reread_eq (wellFormed_natNumeral _) (toList_int_text n)]
  exact number_natNumeral hleast hgreatest

/-- With a fraction or an exponent, a number is a double. -/
lemma exists_number_double {negative : Bool} {whole : List Char} {fraction : Option (List Char)}
    {exponent : Option Int} (hkind : fraction.isSome ∨ exponent.isSome) {n : Number}
    (h : Draft.number negative whole fraction exponent = .ok n) : ∃ y, n = .double y := by
  -- the digits are split off first; reducing the whole body at once is too much for the kernel
  rw [Draft.number] at h
  split at h
  split at h
  case h_1 => simp at hkind
  case h_2 =>
    split at h
    simp only at h
    split at h
    case h_1 y _ =>
      cases h
      exact ⟨y, rfl⟩
    case h_2 => cases h

/-- A double is read as a double, if it is read at all. -/
theorem Number.exists_reread_double {x : Double} {n : Number}
    (h : (Number.double x).reread = .ok n) : ∃ y, n = .double y := by
  obtain ⟨m, hm, htext, hkind⟩ := exists_numeral_format x
  rw [Number.reread_eq hm htext] at h
  refine exists_number_double ?_ h
  rwa [Numeral.power, Option.isSome_map]

end WireContract.Json
