import Mathlib.Data.String.Basic
import Mathlib.Order.Bounds.Basic
import WireContract.Proofs.ImportAliases

/-!
# How aliases are searched for

The suffix of an alias is searched for without a bound, among names of which more are taken with
every module.  `Finds` is that search, and `Assigns` the searches for the modules one after another;
neither knows a bound, so that what they relate is a search that has ended.  The bounded search of
`assign` gives the same (`assigns_assign`).

What an alias is can be said without any search (`aliases_are_least_free`).  A name is free for a
module if it is no keyword, not reserved, and not the alias of a lesser module; the alias is the
last segment of the module if that is free, and has the least suffix that makes it free if not.
-/

namespace WireContract.Emit

open Rust Schema

/-! ## Searches that end -/

/-- The name cannot be given when some names are taken. -/
def Barred (taken : List String) (name : String) : Prop := name ∈ taken ∨ name ∈ keywords

/-- The search for a name that is not barred, from the suffix `n` on, ends with a name. -/
inductive Finds (taken : List String) (base : String) : ℕ → String → Prop where
  | free {n : ℕ} (h : ¬ Barred taken (suffixed base n)) : Finds taken base n (suffixed base n)
  | barred {n : ℕ} {name : String} (h : Barred taken (suffixed base n))
    (hnext : Finds taken base (n + 1) name) : Finds taken base n name

/-- The searches for modules, one after another, end with aliases; each alias is taken for those
that follow. -/
inductive Assigns : List String → List String → List (String × String) → Prop where
  | nil {taken : List String} : Assigns taken [] []
  | cons {taken modules : List String} {m name : String} {aliases : List (String × String)}
    (hname : Finds taken (lastSegment m) 0 name) (hrest : Assigns (name :: taken) modules aliases) :
    Assigns taken (m :: modules) ((m, name) :: aliases)

lemma barred_iff {taken : List String} {name : String} :
    (taken.contains name || isKeyword name) = true ↔ Barred taken name := by
  simp [Barred, isKeyword]

/-- A search that has a free name within its bound goes as the one without. -/
lemma finds_firstFree {taken : List String} {base : String} {fuel n : ℕ}
    (h : ∃ k ≤ fuel, ¬ Barred taken (suffixed base (n + k))) :
    Finds taken base n
      (firstFree (fun name => taken.contains name || isKeyword name) base fuel n) := by
  induction fuel generalizing n with
  | zero =>
    obtain ⟨k, hk, hfree⟩ := h
    obtain rfl : k = 0 := by omega
    exact .free hfree
  | succ fuel ih =>
    unfold firstFree
    by_cases hbarred : Barred taken (suffixed base n)
    · rw [if_pos (barred_iff.2 hbarred)]
      apply Finds.barred hbarred
      apply ih
      obtain ⟨k, hk, hfree⟩ := h
      have hpos : k ≠ 0 := by
        intro hzero
        rw [hzero, Nat.add_zero] at hfree
        exact hfree hbarred
      refine ⟨k - 1, by omega, ?_⟩
      rwa [show n + 1 + (k - 1) = n + k by omega]
    · rw [if_neg fun htaken => hbarred (barred_iff.1 htaken)]
      exact .free hbarred

/-- There are more suffixes within the bound than names that are taken or keywords. -/
lemma finds_pickAlias (taken : List String) (m : String) :
    Finds taken (lastSegment m) 0 (pickAlias taken m) := by
  obtain ⟨k, hk, hfree⟩ := exists_suffixed_notMem (lastSegment m) (taken ++ keywords)
  rw [List.length_append] at hk
  apply finds_firstFree
  refine ⟨k, by omega, ?_⟩
  intro hbarred
  rw [Nat.zero_add] at hbarred
  exact hfree (List.mem_append.2 hbarred)

lemma assigns_assign (taken modules : List String) :
    Assigns taken modules (assign taken modules) := by
  induction modules generalizing taken with
  | nil => exact .nil
  | cons m modules ih => exact .cons (finds_pickAlias taken m) (ih _)

/-- A search stops at the first suffix that is free. -/
lemma Finds.exists_least {taken : List String} {base : String} {n : ℕ} {name : String}
    (h : Finds taken base n name) : ∃ k, n ≤ k ∧ name = suffixed base k ∧ ¬ Barred taken name ∧
      ∀ j, n ≤ j → j < k → Barred taken (suffixed base j) := by
  induction h with
  | @free n hfree =>
    refine ⟨n, le_refl n, rfl, hfree, ?_⟩
    intro j hnj hjn
    omega
  | @barred n name hbarred _ ih =>
    obtain ⟨k, hk, hname, hfree, hbelow⟩ := ih
    refine ⟨k, by omega, hname, hfree, ?_⟩
    intro j hnj hjk
    by_cases hj : j = n
    · rw [hj]
      exact hbarred
    · exact hbelow j (by omega) hjk

/-- In the search for a module, the aliases before it are taken. -/
lemma Assigns.finds {taken modules : List String} {before after : List (String × String)}
    {m name : String} (h : Assigns taken modules (before ++ (m, name) :: after)) :
    Finds ((before.map Prod.snd).reverse ++ taken) (lastSegment m) 0 name := by
  induction before generalizing taken modules with
  | nil =>
    cases h with
    | cons hname _ => exact hname
  | cons p before ih =>
    cases h with
    | cons _ hrest =>
      rw [List.map_cons, List.reverse_cons, List.append_assoc]
      exact ih hrest

namespace Imports

/-! ## The order of modules -/

variable {module : String} {mentioned reserved : List String}

/-- The modules come in ascending order. -/
lemma pairwise_modules_ofModules :
    (ofModules module mentioned reserved).modules.Pairwise (· < ·) := by
  have htrans : ∀ a b c : String, decide (a ≤ b) = true → decide (b ≤ c) = true →
      decide (a ≤ c) = true := by
    intro a b c hab hbc
    rw [decide_eq_true_eq] at hab hbc ⊢
    exact le_trans hab hbc
  have htotal : ∀ a b : String, (decide (a ≤ b) || decide (b ≤ a)) = true := by
    intro a b
    rw [Bool.or_eq_true, decide_eq_true_eq, decide_eq_true_eq]
    exact le_total a b
  have hle : (ofModules module mentioned reserved).modules.Pairwise (· ≤ ·) := by
    unfold Imports.modules ofModules
    rw [map_fst_assign]
    exact (List.pairwise_mergeSort htrans htotal _).imp fun hab => of_decide_eq_true hab
  have hne : (ofModules module mentioned reserved).modules.Pairwise (· ≠ ·) :=
    unambiguous_ofModules.modules
  exact (hle.and hne).imp fun h => lt_of_le_of_ne h.1 h.2

/-- The modules mentioned decide the imports, in whatever order and how often they are given. -/
lemma ofModules_congr {mentioned' : List String} (h : ∀ m, m ∈ mentioned' ↔ m ∈ mentioned) :
    ofModules module mentioned' reserved = ofModules module mentioned reserved := by
  have hmodules : (ofModules module mentioned' reserved).modules =
      (ofModules module mentioned reserved).modules := by
    refine List.Perm.eq_of_pairwise (fun a b _ _ hab hba => (lt_asymm hab hba).elim)
      pairwise_modules_ofModules pairwise_modules_ofModules ?_
    apply (List.perm_ext_iff_of_nodup unambiguous_ofModules.modules
      unambiguous_ofModules.modules).2
    intro m
    rw [mem_modules_ofModules, mem_modules_ofModules, h]
  have hassigned : ∀ names : List String, ofModules module names reserved =
      ⟨module, assign (reservedAliases ++ reserved) (ofModules module names reserved).modules⟩ := by
    intro names
    unfold Imports.modules ofModules
    rw [map_fst_assign]
  rw [hassigned mentioned', hassigned mentioned, hmodules]

/-! ## Aliases -/

lemma Unambiguous.alias?_eq_some_iff {imports : Imports} (h : imports.Unambiguous)
    {m name : String} : imports.alias? m = some name ↔ (m, name) ∈ imports.aliases := by
  constructor
  · intro hname
    unfold alias? at hname
    obtain ⟨p, hp, rfl⟩ := Option.map_eq_some_iff.1 hname
    have hkey : p.1 = m := by simpa using List.find?_some hp
    rw [← hkey]
    exact List.mem_of_find?_eq_some hp
  · intro hmem
    exact h.alias?_eq_some hmem

lemma Unambiguous.exists_alias?_iff {imports : Imports} (h : imports.Unambiguous) {m : String} :
    (∃ name, imports.alias? m = some name) ↔ m ∈ imports.modules := by
  simp only [h.alias?_eq_some_iff]
  unfold Imports.modules
  rw [List.mem_map]
  constructor
  · intro ⟨name, hname⟩
    exact ⟨_, hname, rfl⟩
  · intro ⟨p, hp, hkey⟩
    rw [← hkey]
    exact ⟨p.2, hp⟩

/-- The name can be given to a module: it is no keyword, not reserved, and not the alias of a lesser
module. -/
def IsFree (imports : Imports) (reserved : List String) (m name : String) : Prop :=
  name ∉ keywords ∧ name ∉ reservedAliases ∧ name ∉ reserved ∧
    ∀ m' < m, imports.alias? m' ≠ some name

/-- In the search for a module, the names that are barred are those that are not free for it. -/
lemma not_barred_iff {before after : List (String × String)} {m name : String}
    (h : (ofModules module mentioned reserved).aliases = before ++ (m, name) :: after)
    (other : String) :
    ¬ Barred ((before.map Prod.snd).reverse ++ (reservedAliases ++ reserved)) other ↔
      (ofModules module mentioned reserved).IsFree reserved m other := by
  have hsorted : (before ++ (m, name) :: after).Pairwise fun p q => p.1 < q.1 := by
    rw [← h, ← List.pairwise_map]
    exact pairwise_modules_ofModules
  obtain ⟨-, hafter, hbefore⟩ := List.pairwise_append.1 hsorted
  have hlesser : (∀ m' < m, (ofModules module mentioned reserved).alias? m' ≠ some other) ↔
      other ∉ before.map Prod.snd := by
    constructor
    · intro hnone hmem
      obtain ⟨p, hp, rfl⟩ := List.mem_map.1 hmem
      apply hnone p.1 (hbefore p hp _ List.mem_cons_self)
      rw [unambiguous_ofModules.alias?_eq_some_iff, h]
      exact List.mem_append_left _ hp
    · intro hmem m' hm' hsome
      rw [unambiguous_ofModules.alias?_eq_some_iff, h, List.mem_append, List.mem_cons] at hsome
      rcases hsome with hp | hp | hp
      · exact hmem (List.mem_map.2 ⟨_, hp, rfl⟩)
      · exact lt_irrefl m ((Prod.mk.inj hp).1 ▸ hm')
      · exact lt_asymm hm' ((List.pairwise_cons.1 hafter).1 _ hp)
  unfold IsFree Barred
  rw [hlesser, List.mem_append, List.mem_reverse, List.mem_append]
  tauto

lemma assigns_ofModules (module : String) (mentioned reserved : List String) :
    Assigns (reservedAliases ++ reserved) (ofModules module mentioned reserved).modules
      (ofModules module mentioned reserved).aliases := by
  unfold Imports.modules ofModules
  rw [map_fst_assign]
  exact assigns_assign _ _

/-- The alias of a module is free for it, and has the least suffix with which it is. -/
lemma exists_suffix_of_mem {m name : String}
    (h : (m, name) ∈ (ofModules module mentioned reserved).aliases) :
    (ofModules module mentioned reserved).IsFree reserved m name ∧
      ∃ k, name = suffixed (lastSegment m) k ∧ ∀ j < k,
        ¬ (ofModules module mentioned reserved).IsFree reserved m (suffixed (lastSegment m) j) := by
  obtain ⟨before, after, hsplit⟩ := List.append_of_mem h
  have hassigns := assigns_ofModules module mentioned reserved
  rw [hsplit] at hassigns
  obtain ⟨k, -, hname, hfree, hbelow⟩ := hassigns.finds.exists_least
  refine ⟨(not_barred_iff hsplit _).1 hfree, k, hname, ?_⟩
  intro j hj hisFree
  exact (not_barred_iff hsplit _).2 hisFree (hbelow j (Nat.zero_le j) hj)

/-- The aliases of the modules that a file mentions, said without the order in which they are
found.  An alias is the last segment of its module if that is free, and else the last segment with
the least suffix that is free. -/
structure NamesLeast (imports : Imports) (module : String) (mentioned reserved : List String) :
    Prop where
  ascending : imports.modules.Pairwise (· < ·)
  searched : Assigns (reservedAliases ++ reserved) imports.modules imports.aliases
  imported : ∀ m, (∃ name, imports.alias? m = some name) ↔ m ∈ mentioned ∧ m ≠ module
  apart : ∀ m m' name, imports.alias? m = some name → imports.alias? m' = some name → m = m'
  unused : ∀ m name, imports.alias? m = some name →
    name ∉ keywords ∧ name ∉ reservedAliases ∧ name ∉ reserved
  least : ∀ m name, imports.alias? m = some name →
    name = lastSegment m ∧ imports.IsFree reserved m (lastSegment m) ∨
      ¬ imports.IsFree reserved m (lastSegment m) ∧
        ∃ n, name = lastSegment m ++ "_" ++ toString n ∧
          IsLeast {n | 1 ≤ n ∧
            imports.IsFree reserved m (lastSegment m ++ "_" ++ toString n)} n

lemma least_of_alias? {module m name : String} {mentioned reserved : List String}
    (h : (ofModules module mentioned reserved).alias? m = some name) :
    name = lastSegment m ∧ (ofModules module mentioned reserved).IsFree reserved m (lastSegment m) ∨
      ¬ (ofModules module mentioned reserved).IsFree reserved m (lastSegment m) ∧
        ∃ n, name = lastSegment m ++ "_" ++ toString n ∧
          IsLeast {n | 1 ≤ n ∧ (ofModules module mentioned reserved).IsFree reserved m
            (lastSegment m ++ "_" ++ toString n)} n := by
  have hone : (ofModules module mentioned reserved).Unambiguous := unambiguous_ofModules
  obtain ⟨hfree, k, hk, hbelow⟩ := exists_suffix_of_mem (hone.alias?_eq_some_iff.1 h)
  rw [hk] at hfree
  cases k with
  | zero => exact .inl ⟨hk, hfree⟩
  | succ n =>
    refine .inr ⟨hbelow 0 (Nat.succ_pos n), n + 1, hk, ⟨Nat.succ_pos n, hfree⟩, ?_⟩
    rintro j ⟨hpos, hj⟩
    by_contra hlt
    obtain ⟨i, rfl⟩ : ∃ i, j = i + 1 := ⟨j - 1, by omega⟩
    exact hbelow (i + 1) (by omega) hj

end Imports

/-- The imports of a file.  The searches for the aliases end, for the modules in ascending order.
The modules with an alias are those that are mentioned and are not the file's own.  Different
modules have different aliases.  An alias is no keyword, none of the names that generated files rely
on and none of the given names, and it is the first such name that is free.  The order and the
repetition of the modules do not matter. -/
theorem aliases_are_least_free (module : String) (mentioned reserved : List String) :
    (Imports.ofModules module mentioned reserved).NamesLeast module mentioned reserved ∧
    ∀ mentioned' : List String, (∀ m, m ∈ mentioned' ↔ m ∈ mentioned) →
      Imports.ofModules module mentioned' reserved =
        Imports.ofModules module mentioned reserved := by
  have hone : (Imports.ofModules module mentioned reserved).Unambiguous :=
    Imports.unambiguous_ofModules
  refine ⟨⟨Imports.pairwise_modules_ofModules, Imports.assigns_ofModules module mentioned reserved,
    ?_, ?_, ?_, fun m name => Imports.least_of_alias?⟩,
    fun mentioned' h => Imports.ofModules_congr h⟩
  · intro m
    rw [hone.exists_alias?_iff, Imports.mem_modules_ofModules]
  · intro m m' name hm hm'
    rw [hone.alias?_eq_some_iff] at hm hm'
    exact congrArg Prod.fst (List.inj_on_of_nodup_map hone.aliases hm hm' rfl)
  · intro m name hname
    obtain ⟨hfree, -⟩ := Imports.exists_suffix_of_mem (hone.alias?_eq_some_iff.1 hname)
    exact ⟨hfree.1, hfree.2.1, hfree.2.2.1⟩

/-- Two modules called `api` beside one called `api_1`, which is reserved, and one called like a
library; the order of the modules is not the one in which they get their aliases. -/
theorem aliases_are_least_free_apis :
    let imports :=
      Imports.ofModules "a" ["y.api", "z.api_2", "x.api", "a", "x.api", "w.std"] ["api_1"]
    imports.aliases =
        [("w.std", "std_1"), ("x.api", "api"), ("y.api", "api_2"), ("z.api_2", "api_2_1")] ∧
      imports.alias? "y.api" = some "api_2" ∧ ¬ imports.IsFree ["api_1"] "y.api" "api" ∧
      ∃ n, "api_2" = "api" ++ "_" ++ toString n ∧
        IsLeast {n | 1 ≤ n ∧ imports.IsFree ["api_1"] "y.api" ("api" ++ "_" ++ toString n)} n := by
  intro imports
  have hsorted : Imports.ofModules "a" ["a", "w.std", "x.api", "y.api", "z.api_2"] ["api_1"] =
      imports := by
    apply (aliases_are_least_free "a" ["y.api", "z.api_2", "x.api", "a", "x.api", "w.std"]
      ["api_1"]).2
    intro m
    simp only [List.mem_cons, List.not_mem_nil, or_false]
    tauto
  have haliases : imports.aliases =
      [("w.std", "std_1"), ("x.api", "api"), ("y.api", "api_2"), ("z.api_2", "api_2_1")] := by
    rw [← hsorted]
    unfold Imports.ofModules
    rw [List.mergeSort_of_pairwise (by decide)]
    decide
  have halias : imports.alias? "y.api" = some "api_2" := by
    unfold Imports.alias?
    rw [haliases]
    decide
  have hsegment : lastSegment "y.api" = "api" := by decide
  have hleast := (aliases_are_least_free "a"
    ["y.api", "z.api_2", "x.api", "a", "x.api", "w.std"] ["api_1"]).1.least _ _ halias
  rw [hsegment] at hleast
  refine ⟨haliases, halias, ?_⟩
  rcases hleast with ⟨hname, -⟩ | hsuffix
  · exact absurd hname (by decide)
  · exact hsuffix

end WireContract.Emit
