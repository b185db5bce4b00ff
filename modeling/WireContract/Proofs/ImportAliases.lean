import Mathlib.Data.List.Nodup
import Mathlib.Data.Nat.Init
import Mathlib.Tactic.Common
import WireContract.Emit.Imports

/-!
# Aliases of imported modules

A module is imported under the last segment of its path, with the least numeric suffix that makes it
free.  The search for the suffix is bounded.  The bound is never met: suffixes make different names
(`suffixed_injective`), so among one more of them than there are names that are taken or keywords,
one is free (`pickAlias_spec`).

Aliases are picked one after another, and each counts as taken for those that follow.  So they
differ from each other and from the reserved names (`assign_spec`, `nodup_assign`), and the imports
of a file have one alias for each module that is mentioned and is not its own
(`mem_modules_ofModules`).
-/

namespace WireContract.Emit

open Rust Schema

/-! ## A free suffix -/

lemma suffixed_injective (base : String) : Function.Injective (suffixed base) := by
  have hlonger : ∀ n, suffixed base 0 ≠ suffixed base (n + 1) := by
    intro n h
    have hlength := congrArg String.length h
    simp only [suffixed, String.length_append] at hlength
    have hmark : "_".length = 1 := rfl
    omega
  intro m n h
  cases m with
  | zero =>
    cases n with
    | zero => rfl
    | succ n => exact (hlonger n h).elim
  | succ m =>
    cases n with
    | zero => exact (hlonger m h.symm).elim
    | succ n =>
      -- the digits of a number give the number back
      have hvalue := congrArg (fun s : String => Nat.ofDigitChars 10 s.toList 0)
        ((String.append_right_inj _).1 h)
      simpa [Nat.repr] using hvalue

/-- A free suffix within the bound is found. -/
lemma firstFree_free {isTaken : String → Bool} {base : String} {fuel n : ℕ}
    (h : ∃ k ≤ fuel, isTaken (suffixed base (n + k)) = false) :
    isTaken (firstFree isTaken base fuel n) = false := by
  induction fuel generalizing n with
  | zero =>
    obtain ⟨k, hk, hfree⟩ := h
    obtain rfl := Nat.le_zero.1 hk
    exact hfree
  | succ fuel ih =>
    rw [firstFree]
    by_cases htaken : isTaken (suffixed base n) = true
    · rw [if_pos htaken]
      obtain ⟨k, hk, hfree⟩ := h
      -- the free suffix is not the one at hand, so it is among those that follow
      obtain ⟨k, rfl⟩ : ∃ j, k = j + 1 := by
        refine Nat.exists_eq_succ_of_ne_zero ?_
        rintro rfl
        rw [Nat.add_zero, htaken] at hfree
        cases hfree
      exact ih ⟨k, by omega, by rwa [Nat.add_right_comm, Nat.add_assoc]⟩
    · rw [if_neg htaken]
      simpa using htaken

lemma exists_firstFree_eq (isTaken : String → Bool) (base : String) (fuel n : ℕ) :
    ∃ k, firstFree isTaken base fuel n = suffixed base k := by
  induction fuel generalizing n with
  | zero => exact ⟨n, rfl⟩
  | succ fuel ih =>
    rw [firstFree]
    by_cases htaken : isTaken (suffixed base n) = true
    · rw [if_pos htaken]
      exact ih (n + 1)
    · rw [if_neg htaken]
      exact ⟨n, rfl⟩

/-- Of more suffixes than names, one gives none of the names. -/
lemma exists_suffixed_notMem (base : String) (names : List String) :
    ∃ k ≤ names.length, suffixed base k ∉ names := by
  by_contra h
  push Not at h
  have hnodup : ((List.range (names.length + 1)).map (suffixed base)).Nodup :=
    List.nodup_range.map (suffixed_injective base)
  have hsub : (List.range (names.length + 1)).map (suffixed base) ⊆ names := by
    intro name hname
    obtain ⟨k, hk, rfl⟩ := List.mem_map.1 hname
    exact h k (Nat.lt_succ_iff.1 (List.mem_range.1 hk))
  have hlength := hnodup.length_le_of_subset hsub
  rw [List.length_map, List.length_range] at hlength
  omega

/-- The alias of a module is its last segment with a suffix; it is not taken and no keyword. -/
lemma pickAlias_spec (taken : List String) (module : String) :
    pickAlias taken module ∉ taken ∧ pickAlias taken module ∉ keywords ∧
      ∃ k, pickAlias taken module = suffixed (lastSegment module) k := by
  obtain ⟨k, hk, hfree⟩ := exists_suffixed_notMem (lastSegment module) (taken ++ keywords)
  rw [List.length_append] at hk
  rw [List.mem_append, not_or] at hfree
  have hpicked : (taken.contains (pickAlias taken module) ||
      isKeyword (pickAlias taken module)) = false :=
    @firstFree_free (fun name => taken.contains name || isKeyword name) _ _ 0
      ⟨k, by omega, by simpa [isKeyword] using hfree⟩
  rw [Bool.or_eq_false_iff] at hpicked
  exact ⟨by simpa using hpicked.1, by simpa [isKeyword] using hpicked.2,
    exists_firstFree_eq _ _ _ _⟩

/-! ## One alias after another -/

@[simp] lemma map_fst_assign (taken modules : List String) :
    (assign taken modules).map Prod.fst = modules := by
  induction modules generalizing taken with
  | nil => rfl
  | cons m modules ih => rw [assign, List.map_cons, ih]

lemma assign_spec {taken modules : List String} {p : String × String}
    (hp : p ∈ assign taken modules) :
    p.2 ∉ taken ∧ p.2 ∉ keywords ∧ ∃ k, p.2 = suffixed (lastSegment p.1) k := by
  induction modules generalizing taken with
  | nil => exact (List.not_mem_nil hp).elim
  | cons m modules ih =>
    rw [assign] at hp
    rcases List.mem_cons.1 hp with rfl | hp
    · exact pickAlias_spec taken m
    · obtain ⟨hfree, hrest⟩ := ih hp
      exact ⟨fun hmem => hfree (List.mem_cons_of_mem _ hmem), hrest⟩

/-- No two modules have the same alias: the first counts as taken for those that follow. -/
lemma nodup_assign (taken modules : List String) :
    ((assign taken modules).map Prod.snd).Nodup := by
  induction modules generalizing taken with
  | nil => exact List.nodup_nil
  | cons m modules ih =>
    rw [assign, List.map_cons, List.nodup_cons]
    refine ⟨fun hmem => ?_, ih _⟩
    obtain ⟨p, hp, heq⟩ := List.mem_map.1 hmem
    exact (assign_spec hp).1 (heq ▸ List.mem_cons_self)

/-! ## The imports of a file -/

lemma nodup_eraseDups {α : Type} [BEq α] [LawfulBEq α] (names : List α) :
    names.eraseDups.Nodup := by
  induction hn : names.length using Nat.strong_induction_on generalizing names with
  | _ n ih =>
    cases names with
    | nil => simp
    | cons name names =>
      rw [List.eraseDups_cons, List.nodup_cons]
      have hlength := List.length_filter_le (fun other => !other == name) names
      rw [List.length_cons] at hn
      refine ⟨by simp [List.mem_eraseDups], ih _ (by omega) _ rfl⟩

namespace Imports

/-- The modules that are imported. -/
def modules (imports : Imports) : List String := imports.aliases.map Prod.fst

/-- What holds of the imports of a file: every module has one alias, and every alias stands for one
module and is no keyword and no reserved name. -/
structure Unambiguous (imports : Imports) : Prop where
  modules : imports.modules.Nodup
  aliases : (imports.aliases.map Prod.snd).Nodup
  named : ∀ p ∈ imports.aliases, p.2 ∉ reservedAliases ∧ p.2 ∉ keywords ∧
    ∃ k, p.2 = suffixed (lastSegment p.1) k

variable {module : String} {mentioned reserved : List String}

lemma modules_ofModules_perm : (ofModules module mentioned reserved).modules.Perm
    (mentioned.filter (· != module)).eraseDups := by
  rw [Imports.modules, ofModules, map_fst_assign]
  exact List.mergeSort_perm _ _

/-- A file imports the modules that are mentioned and are not its own. -/
lemma mem_modules_ofModules {m : String} :
    m ∈ (ofModules module mentioned reserved).modules ↔ m ∈ mentioned ∧ m ≠ module := by
  rw [modules_ofModules_perm.mem_iff, List.mem_eraseDups, List.mem_filter, bne_iff_ne]

lemma unambiguous_ofModules : (ofModules module mentioned reserved).Unambiguous := by
  refine ⟨modules_ofModules_perm.nodup_iff.2 (nodup_eraseDups _), nodup_assign _ _, ?_⟩
  intro p hp
  obtain ⟨hfree, hrest⟩ := assign_spec hp
  exact ⟨fun hmem => hfree (List.mem_append_left _ hmem), hrest⟩

/-- The alias of a module is found. -/
lemma Unambiguous.alias?_eq_some {imports : Imports} (h : imports.Unambiguous)
    {p : String × String} (hp : p ∈ imports.aliases) : imports.alias? p.1 = some p.2 := by
  have hkeys : (imports.aliases.map Prod.fst).Nodup := h.modules
  rw [alias?]
  cases hfind : imports.aliases.find? (·.1 == p.1) with
  | none =>
    have hnone := List.find?_eq_none.1 hfind p hp
    simp at hnone
  | some other =>
    have hkey : other.1 = p.1 := by simpa using List.find?_some hfind
    have hsame := List.inj_on_of_nodup_map hkeys (List.mem_of_find?_eq_some hfind) hp hkey
    rw [Option.map_some, hsame]

end Imports

end WireContract.Emit
