import Mathlib.Data.List.Basic
import Mathlib.Tactic.Common
import WireContract.Text.Case

/-!
# Upper case a second time changes nothing

The upper case of a character is read off tables, so that its laws are facts about the tables.
`mappedPoints` are the code points that upper case moves, and `imagePoints` those it moves them to.
No point is in both lists, and therefore `upper_upper`: the upper case of a text is its own upper
case.

The lists have some fifteen hundred points each.  As sets of bits of a natural number they are
compared in one step.
-/

namespace WireContract.Text

namespace Case

/-! ## Lists of points as sets of bits -/

/-- The number whose bits are the given points. -/
def mask (points : List ℕ) : ℕ :=
  points.foldr (fun n m => 1 <<< n ||| m) 0

lemma testBit_mask {points : List ℕ} {n : ℕ} : (mask points).testBit n = true ↔ n ∈ points := by
  induction points with
  | nil => simp [mask]
  | cons p ps ih =>
    rw [mask, List.foldr_cons, ← mask, Nat.testBit_or, Bool.or_eq_true, ih, Nat.one_shiftLeft,
      Nat.testBit_two_pow, decide_eq_true_eq, List.mem_cons, eq_comm]

lemma notMem_of_mask_and {ms ns : List ℕ} (h : mask ms &&& mask ns = 0) {n : ℕ} (hn : n ∈ ms) :
    n ∉ ns := by
  intro hn'
  have hbit : (mask ms &&& mask ns).testBit n = true := by
    rw [Nat.testBit_and, testBit_mask.2 hn, testBit_mask.2 hn', Bool.and_self]
  rw [h, Nat.zero_testBit] at hbit
  cases hbit

/-! ## The points of the tables -/

/-- The points of a run. -/
def runPoints (first last step : ℕ) : List ℕ :=
  (List.range ((last - first) / step + 1)).map fun k => first + k * step

lemma mem_runPoints {first last step n : ℕ} (hle : first ≤ n) (hlast : n ≤ last)
    (hstep : (n - first) % step = 0) : n ∈ runPoints first last step := by
  rw [runPoints, List.mem_map]
  refine ⟨(n - first) / step, ?_, ?_⟩
  · rw [List.mem_range, Nat.lt_succ_iff]
    exact Nat.div_le_div_right (by omega)
  · rw [Nat.div_mul_cancel (Nat.dvd_of_mod_eq_zero hstep)]
    omega

/-- The points that upper case moves. -/
def mappedPoints : List ℕ :=
  runPoints 97 122 1 ++ toUpperSequences.map (·.1) ++
    toUpperRuns.flatMap fun (first, last, step, _) => runPoints first last step

/-- The points that upper case moves others to, and the one that stands for no character. -/
def imagePoints : List ℕ :=
  0 :: runPoints 65 90 1 ++ toUpperSequences.flatMap (·.2) ++
    toUpperRuns.flatMap fun (first, last, step, shift) =>
      (runPoints first last step).map fun n => (Int.ofNat n + shift).toNat

lemma notMem_mappedPoints_of_mem_imagePoints {n : ℕ} (h : n ∈ imagePoints) : n ∉ mappedPoints :=
  notMem_of_mask_and (by decide +kernel) h

/-! ## Fixed characters -/

lemma shifted?_eq_none {runs : List (ℕ × ℕ × ℕ × Int)} {n : ℕ}
    (h : n ∉ runs.flatMap fun (first, last, step, _) => runPoints first last step) :
    shifted? runs n = none := by
  rw [shifted?, List.findSome?_eq_none_iff]
  rintro ⟨first, last, step, shift⟩ hrun
  simp only [ite_eq_right_iff, reduceCtorEq, imp_false]
  intro hin
  simp only [Bool.and_eq_true, decide_eq_true_eq, beq_iff_eq] at hin
  exact h (List.mem_flatMap.2 ⟨_, hrun, mem_runPoints hin.1.1 hin.1.2 hin.2⟩)

lemma mem_of_shifted?_eq_some {runs : List (ℕ × ℕ × ℕ × Int)} {m n : ℕ}
    (h : shifted? runs n = some m) :
    m ∈ runs.flatMap fun (first, last, step, shift) =>
      (runPoints first last step).map fun n => (Int.ofNat n + shift).toNat := by
  obtain ⟨⟨first, last, step, shift⟩, hrun, hm⟩ := List.exists_of_findSome?_eq_some h
  simp only [Option.ite_none_right_eq_some, Bool.and_eq_true, decide_eq_true_eq, beq_iff_eq,
    Option.some.injEq] at hm
  refine List.mem_flatMap.2 ⟨_, hrun, List.mem_map.2 ⟨n, ?_, hm.2⟩⟩
  exact mem_runPoints hm.1.1.1 hm.1.1.2 hm.1.2

lemma toNat_ofNat_mem {points : List ℕ} (h0 : 0 ∈ points) {n : ℕ} (h : n ∈ points) :
    (Char.ofNat n).toNat ∈ points := by
  by_cases hvalid : n.isValidChar
  · have hself : (Char.ofNat n).toNat = n := congrArg Char.toNat (dif_pos hvalid)
    rw [hself]
    exact h
  · have hzero : (Char.ofNat n).toNat = 0 := congrArg Char.toNat (dif_neg hvalid)
    rw [hzero]
    exact h0

end Case

open Case

lemma isAsciiLower_iff {c : Char} : isAsciiLower c = true ↔ 97 ≤ c.toNat ∧ c.toNat ≤ 122 := by
  simp [isAsciiLower, Char.le_def, UInt32.le_iff_toNat_le]

lemma upperChars_of_notMem {c : Char} (h : c.toNat ∉ mappedPoints) : upperChars c = [c] := by
  simp only [mappedPoints, List.mem_append, not_or] at h
  obtain ⟨⟨hascii, hseq⟩, hruns⟩ := h
  rw [upperChars]
  split
  case isTrue =>
    rw [asciiUpper, if_neg]
    intro hlower
    have := isAsciiLower_iff.1 hlower
    exact hascii (mem_runPoints this.1 this.2 (Nat.mod_one _))
  case isFalse =>
    have hlookup : toUpperSequences.lookup c.toNat = none := by
      rw [List.lookup_eq_none_iff]
      intro p hp
      simp only [bne_iff_ne, ne_eq]
      rintro heq
      exact hseq (heq ▸ List.mem_map_of_mem hp)
    rw [mapped, hlookup]
    simp only [shifted?_eq_none hruns]

/-- A character is its own upper case, or all of its upper case are images. -/
lemma upperChars_eq_or (c : Char) :
    upperChars c = [c] ∨ ∀ d ∈ upperChars c, d.toNat ∈ imagePoints := by
  have hzero : 0 ∈ imagePoints := List.mem_cons_self
  rw [upperChars]
  split
  case isTrue =>
    rw [asciiUpper]
    split
    case isTrue hlower =>
      have := isAsciiLower_iff.1 hlower
      refine .inr fun d hd => ?_
      rw [List.mem_singleton.1 hd]
      refine toNat_ofNat_mem hzero ?_
      simp only [imagePoints, List.mem_append, List.cons_append, List.mem_cons]
      exact .inr (.inl (.inl (mem_runPoints (by omega) (by omega) (Nat.mod_one _))))
    case isFalse => exact .inl rfl
  case isFalse =>
    rw [mapped]
    split
    case h_1 image himage =>
      refine .inr fun d hd => ?_
      obtain ⟨n, hn, rfl⟩ := List.mem_map.1 hd
      refine toNat_ofNat_mem hzero ?_
      obtain ⟨before, after, hsplit, -⟩ := List.lookup_eq_some_iff.1 himage
      have hmem : (c.toNat, image) ∈ toUpperSequences := by simp [hsplit]
      simp only [imagePoints, List.mem_append, List.cons_append, List.mem_cons]
      exact .inr (.inl (.inr (List.mem_flatMap.2 ⟨_, hmem, hn⟩)))
    case h_2 =>
      split
      case h_1 n hn =>
        refine .inr fun d hd => ?_
        rw [List.mem_singleton.1 hd]
        refine toNat_ofNat_mem hzero ?_
        simp only [imagePoints, List.mem_append, List.cons_append, List.mem_cons]
        exact .inr (.inr (mem_of_shifted?_eq_some hn))
      case h_2 => exact .inl rfl

/-- Each character of an upper case is its own upper case. -/
lemma upperChars_of_mem {c d : Char} (h : d ∈ upperChars c) : upperChars d = [d] := by
  obtain hc | hc := upperChars_eq_or c
  · rw [hc, List.mem_singleton] at h
    rwa [h]
  · exact upperChars_of_notMem (notMem_mappedPoints_of_mem_imagePoints (hc d h))

/-- The upper case of a text is its own upper case. -/
theorem upper_upper (s : String) : upper (upper s) = upper s := by
  have hfixed : ∀ cs : List Char, (∀ c ∈ cs, upperChars c = [c]) → cs.flatMap upperChars = cs := by
    intro cs hcs
    rw [List.flatMap_congr hcs]
    simp
  rw [upper, upper, String.toList_ofList, hfixed]
  intro c hc
  obtain ⟨b, -, hb⟩ := List.mem_flatMap.1 hc
  exact upperChars_of_mem hb

end WireContract.Text
