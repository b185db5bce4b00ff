import Mathlib.Tactic.Common
import WireContract.Json.Reader
import WireContract.Proofs.JsonWhole

/-!
# When readers succeed

A reader of a list or of a map succeeds exactly on a closed array or object whose parts it reads
(`readList_ok_iff`, `readEntries_ok_iff`).  A record is read field by field, from an object or from
an array; `readRecord_invariant` is the induction over its fields, for both forms at once.
-/

namespace WireContract.Json

open Outcome

/-! ## Scalars -/

lemma unexpected_ne_ok {α : Type} {expected : String} {d : Draft} {a : α} :
    unexpected expected d ≠ .ok a := by
  intro h
  obtain ⟨found, -, herr⟩ := bind_ok_iff.1 h
  cases herr

lemma bounds_of_readInt {least greatest n : Int} {expected : String} {d : Draft}
    (h : readInt least greatest expected d = .ok n) : least ≤ n ∧ n ≤ greatest := by
  unfold readInt at h
  split at h
  · split_ifs at h with hn
    cases h
    simpa using hn
  · exact absurd h unexpected_ne_ok

/-! ## Lists and maps -/

/-- The reader one level further in. -/
def Reader.inner (r : Reader) : Reader := { r with limit := r.limit - 1 }

lemma enter_ok_iff {r r' : Reader} : r.enter = .ok r' ↔ 1 < r.limit ∧ r' = r.inner := by
  unfold Reader.enter
  split_ifs with h
  · simp [Nat.not_lt.2 h]
  · simp [Nat.lt_of_not_le h, Reader.inner, eq_comm]

lemma readList_ok_iff {α : Type} {r : Reader} {read : Reader → Draft → Except Fault α} {d : Draft}
    {xs : List α} :
    readList r read d = .ok xs ↔ ∃ items, d = .arr items none ∧ 1 < r.limit ∧
      List.Forall₂ (fun d x => read r.inner d = .ok x) items xs := by
  unfold readList
  split
  case h_1 items stop =>
    simp only [bind_ok_iff, enter_ok_iff, mapM_ok_iff, exists_unit_iff, Draft.closed_ok_iff,
      pure_ok_iff, Draft.arr.injEq]
    constructor
    · rintro ⟨r', ⟨hlimit, rfl⟩, ys, hys, rfl, rfl⟩
      exact ⟨items, ⟨rfl, rfl⟩, hlimit, hys⟩
    · rintro ⟨items', ⟨rfl, rfl⟩, hlimit, hxs⟩
      exact ⟨r.inner, ⟨hlimit, rfl⟩, xs, hxs, rfl, rfl⟩
  case h_2 harr =>
    refine iff_of_false unexpected_ne_ok ?_
    rintro ⟨items, rfl, -⟩
    exact harr items none rfl

lemma readEntries_ok_iff {α : Type} {r : Reader} {read : Reader → String → Draft → Except Fault α}
    {d : Draft} {xs : List α} :
    readEntries r read d = .ok xs ↔ ∃ fields, d = .obj fields none ∧ 1 < r.limit ∧
      List.Forall₂ (fun p x => ∃ key, p.1 = .ok key ∧ read r.inner key p.2 = .ok x) fields xs := by
  unfold readEntries
  split
  case h_1 fields stop =>
    simp only [bind_ok_iff, enter_ok_iff, mapM_ok_iff, exists_unit_iff, Draft.closed_ok_iff,
      pure_ok_iff, Draft.obj.injEq]
    constructor
    · rintro ⟨r', ⟨hlimit, rfl⟩, ys, hys, rfl, rfl⟩
      exact ⟨fields, ⟨rfl, rfl⟩, hlimit, hys⟩
    · rintro ⟨fields', ⟨rfl, rfl⟩, hlimit, hxs⟩
      exact ⟨r.inner, ⟨hlimit, rfl⟩, xs, hxs, rfl, rfl⟩
  case h_2 hobj =>
    refine iff_of_false unexpected_ne_ok ?_
    rintro ⟨fields, rfl, -⟩
    exact hobj fields none rfl

/-! ## Records -/

section Records

variable {ρ : Type} {r : Reader} {rules : List (RecordField ρ)} {P : ρ → List String → Prop}

/-- The next entry of an object is skipped, or it is read by its rule and was not read before. -/
lemma readFields_cons_ok_iff {key : Except Fault String} {d : Draft}
    {rest : List (Except Fault String × Draft)} {record : ρ} {seen : List String}
    {result : ρ × List String} :
    readFields r rules record seen ((key, d) :: rest) = .ok result ↔
      ∃ k, key = .ok k ∧
        ((rules.find? (·.name == k) = none ∧ d.skip = none ∧
            readFields r rules record seen rest = .ok result) ∨
          ∃ rule, rules.find? (·.name == k) = some rule ∧ k ∉ seen ∧
            ∃ record', rule.read r d record = .ok record' ∧
              readFields r rules record' (k :: seen) rest = .ok result) := by
  rw [readFields, bind_ok_iff]
  refine exists_congr fun k => and_congr_right fun _ => ?_
  split
  case h_1 hnone =>
    split
    case h_1 fault hskip => simp [hnone, hskip]
    case h_2 hskip => simp [hnone, hskip]
  case h_2 rule hrule =>
    by_cases hseen : k ∈ seen
    · simp [hrule, hseen]
    · simp [hrule, hseen]

lemma readFields_invariant
    (hstep : ∀ rule ∈ rules, ∀ d record seen record', P record seen →
      rule.read r d record = .ok record' → P record' (rule.name :: seen))
    {entries : List (Except Fault String × Draft)} {record : ρ} {seen : List String}
    {result : ρ × List String} (hP : P record seen)
    (h : readFields r rules record seen entries = .ok result) : P result.1 result.2 := by
  induction entries generalizing record seen with
  | nil =>
    cases h
    exact hP
  | cons entry rest ih =>
    obtain ⟨k, -, ⟨-, -, h⟩ | ⟨rule, hrule, -, record', hread, h⟩⟩ := readFields_cons_ok_iff.1 h
    · exact ih hP h
    · have hname : rule.name = k := by simpa using List.find?_some hrule
      have hP' := hstep rule (List.mem_of_find?_eq_some hrule) entry.2 record seen record' hP hread
      exact ih (hname ▸ hP') h

lemma readElements_invariant
    (hstep : ∀ rule ∈ rules, ∀ d record seen record', P record seen →
      rule.read r d record = .ok record' → P record' (rule.name :: seen))
    {expected : String} {stop : Option Stop} {items : List Draft} {record : ρ} {seen : List String}
    {index : ℕ} {result : ρ × List Draft} (hP : P record seen)
    (h : readElements r expected stop record index rules items = .ok result) :
    ∃ seen', P result.1 seen' ∧ seen ⊆ seen' ∧
      ∀ rule ∈ rules, rule.presence = .defaulted ∨ rule.name ∈ seen' := by
  induction rules generalizing items record seen index with
  | nil =>
    rw [readElements] at h
    cases h
    exact ⟨seen, hP, fun _ h => h, by simp⟩
  | cons rule rules ih =>
    have hstep' := fun rule' hrule' => hstep rule' (List.mem_cons_of_mem _ hrule')
    cases items with
    | nil =>
      rw [readElements, check_bind_ok_iff] at h
      obtain ⟨-, h⟩ := h
      split_ifs at h with hdefault
      obtain ⟨seen', hP', hsub, hrules⟩ := ih hstep' hP h
      refine ⟨seen', hP', hsub, List.forall_mem_cons.2 ⟨.inl (beq_iff_eq.1 hdefault), hrules⟩⟩
    | cons d items =>
      rw [readElements, bind_ok_iff] at h
      obtain ⟨record', hread, h⟩ := h
      have hP' := hstep rule List.mem_cons_self d record seen record' hP hread
      obtain ⟨seen', hP'', hsub, hrules⟩ := ih hstep' hP' h
      have hname : rule.name ∈ seen' := hsub List.mem_cons_self
      exact ⟨seen', hP'', fun _ h => hsub (List.mem_cons_of_mem _ h),
        List.forall_mem_cons.2 ⟨.inr hname, hrules⟩⟩

/-- What holds of the empty record, and of a record with one more field read if it holds of the
record before, holds of every record that is read.  The second argument of `P` are the names of the
fields read, and every required field is among them. -/
theorem readRecord_invariant
    (hstep : ∀ r, ∀ rule ∈ rules, ∀ d record seen record', P record seen →
      rule.read r d record = .ok record' → P record' (rule.name :: seen))
    {label : String} {empty record : ρ} {d : Draft} (hP : P empty [])
    (h : readRecord r label rules empty d = .ok record) :
    ∃ seen, P record seen ∧ ∀ rule ∈ rules, rule.presence = .required → rule.name ∈ seen := by
  cases d with
  | obj fields stop =>
    simp only [readRecord, bind_ok_iff, exists_unit_iff] at h
    obtain ⟨inner, -, ⟨found, seen⟩, hfields, -, h⟩ := h
    split at h
    · cases h
    case h_2 hnone =>
      cases h
      refine ⟨seen, readFields_invariant (hstep inner) hP hfields, fun rule hrule hreq => ?_⟩
      have := List.find?_eq_none.1 hnone rule hrule
      simpa [hreq] using this
  | arr items stop =>
    simp only [readRecord, bind_ok_iff, exists_unit_iff] at h
    obtain ⟨inner, -, ⟨found, left⟩, hitems, -, h⟩ := h
    cases h
    obtain ⟨seen, hseen, -, hrules⟩ := readElements_invariant (hstep inner) hP hitems
    refine ⟨seen, hseen, fun rule hrule hreq => ?_⟩
    obtain hdefault | hname := hrules rule hrule
    · rw [hreq] at hdefault
      cases hdefault
    · exact hname
  | _ => exact absurd h unexpected_ne_ok

end Records

end WireContract.Json
