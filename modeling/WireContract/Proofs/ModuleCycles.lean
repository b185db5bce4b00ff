import WireContract.Proofs.ModuleEdges
import WireContract.Proofs.Reachability
import WireContract.Proofs.References

/-!
# Cycles of modules

The graph of a registry is built mention by mention and then searched.  Here it is compared with the
relation it stands for: one module depends on another when a declaration of the first mentions one
of the other's (`ModuleDepends`).  The graph has exactly these dependencies
(`step_dependencies_iff`), its search decides their transitive closure (`dependsOn_iff`), and it
reports no cycle exactly if no module depends on itself (`cycles_eq_nil_iff`).

Only the first module of each group reports the group.  Nothing is lost by that: the modules of a
group have the same component, so the first of them does report it.
-/

namespace WireContract.Schema

open Relation WireContract.Graph

/-- A declaration of the first module mentions a name of the second, which is another module. -/
def ModuleDepends (ds : List Declaration) (a b : String) : Prop :=
  a ≠ b ∧ ∃ d ∈ ds, ∃ q, d.Refers (.declared q) ∧ d.name.module = a ∧ q.module = b

namespace ModuleGraph

variable {g : ModuleGraph}

/-! ## Building the graph -/

/-- Recording a list of mentions adds those that lead to another module, and keeps the graph
linked. -/
lemma foldl_addMention (pairs : List (QualifiedName × QualifiedName)) (hg : g.IsLinked) :
    let h := pairs.foldl (fun g (source, target) => g.addMention source target) g
    h.IsLinked ∧ ∀ p, p ∈ h.mentions ↔
      p ∈ g.mentions ∨ p ∈ pairs ∧ p.1.module ≠ p.2.module := by
  induction pairs generalizing g with
  | nil => exact ⟨hg, by simp⟩
  | cons pair pairs ih =>
    obtain ⟨hlinked, hmem⟩ := ih (hg.addMention pair.1 pair.2)
    refine ⟨hlinked, fun p => ?_⟩
    rw [List.foldl_cons, hmem, mem_mentions_addMention, List.mem_cons, or_assoc, or_and_right]

lemma foldl_insertModule (modules : List String) (hg : g.IsLinked) :
    (modules.foldl insertModule g).IsLinked ∧
      (modules.foldl insertModule g).mentions = g.mentions := by
  induction modules generalizing g with
  | nil => exact ⟨hg, rfl⟩
  | cons m modules ih =>
    obtain ⟨hlinked, hmentions⟩ := ih (hg.addModule m)
    exact ⟨hlinked, hmentions.trans (mentions_insertModule m)⟩

/-- The graph of a registry is linked, and records what its declarations mention of other
modules. -/
lemma ofRegistry_spec (reg : Registry) :
    (ofRegistry reg).IsLinked ∧ ∀ source target,
      (source, target) ∈ (ofRegistry reg).mentions ↔ source.module ≠ target.module ∧
        ∃ d ∈ reg.declarations, d.name = source ∧ d.Refers (.declared target) := by
  obtain ⟨hempty, hstart⟩ := foldl_insertModule reg.modules isLinked_empty
  obtain ⟨hlinked, hmem⟩ := foldl_addMention
    (reg.declarations.flatMap fun d => d.mentions.map (d.name, ·)) hempty
  have hnone : empty.mentions = [] := rfl
  refine ⟨hlinked, fun source target => ?_⟩
  rw [ofRegistry, hmem, hstart, hnone]
  simp only [List.not_mem_nil, false_or, List.mem_flatMap, List.mem_map, Prod.mk.injEq,
    Declaration.mem_mentions_iff]
  constructor
  · rintro ⟨⟨d, hd, q, hq, rfl, rfl⟩, hne⟩
    exact ⟨hne, d, hd, rfl, hq⟩
  · rintro ⟨hne, d, hd, rfl, hq⟩
    exact ⟨⟨d, hd, target, hq, rfl, rfl⟩, hne⟩

/-! ## Searching the graph -/

/-- The dependencies of the graph of a registry are those of its declarations. -/
lemma step_dependencies_iff {reg : Registry} {a b : String} :
    Step (ofRegistry reg).dependencies a b ↔ ModuleDepends reg.declarations a b := by
  rw [Step, (ofRegistry_spec reg).1.mem_dependencies_iff]
  simp only [(ofRegistry_spec reg).2, ModuleDepends]
  constructor
  · rintro ⟨source, target, ⟨hne, d, hd, rfl, hq⟩, rfl, rfl⟩
    exact ⟨hne, d, hd, target, hq, rfl, rfl⟩
  · rintro ⟨hne, d, hd, target, hq, rfl, rfl⟩
    exact ⟨d.name, target, ⟨hne, d, hd, rfl, hq⟩, rfl, rfl⟩

lemma IsLinked.dependencies_subset (hg : g.IsLinked) (a : String) :
    g.dependencies a ⊆ g.modules := by
  intro b hb
  obtain ⟨source, target, hmem, -, rfl⟩ := hg.mem_dependencies_iff.1 hb
  exact (hg.ne_of_mem_mentions hmem).2.2

lemma IsLinked.dependsOn_iff (hg : g.IsLinked) {a b : String} :
    g.dependsOn a b = true ↔ TransGen (Step g.dependencies) a b :=
  reaches_iff (fun m _ => hg.dependencies_subset m) (Nat.le_refl _) (hg.dependencies_subset a)

/-- A module of a dependency that comes back is a module of the graph. -/
lemma IsLinked.mem_modules_of_cycle (hg : g.IsLinked) {m : String}
    (hm : TransGen (Step g.dependencies) m m) : m ∈ g.modules := by
  obtain ⟨b, -, hb⟩ := TransGen.tail'_iff.1 hm
  exact hg.dependencies_subset b hb

/-- Two modules of one group have the same group. -/
lemma IsLinked.component_eq (hg : g.IsLinked) {a b : String}
    (hab : TransGen (Step g.dependencies) a b) (hba : TransGen (Step g.dependencies) b a) :
    g.component a = g.component b := by
  have hsame : (fun other => g.dependsOn a other && g.dependsOn other a) =
      fun other => g.dependsOn b other && g.dependsOn other b := by
    funext other
    rw [Bool.eq_iff_iff]
    simp only [Bool.and_eq_true, hg.dependsOn_iff]
    exact ⟨fun h => ⟨hba.trans h.1, h.2.trans hab⟩, fun h => ⟨hab.trans h.1, h.2.trans hba⟩⟩
  rw [component, component, hsame]

lemma IsLinked.mem_component_iff (hg : g.IsLinked) {a b : String} :
    b ∈ g.component a ↔ b ∈ g.modules ∧ TransGen (Step g.dependencies) a b ∧
      TransGen (Step g.dependencies) b a := by
  simp only [component, List.mem_mergeSort, List.mem_filter, Bool.and_eq_true, hg.dependsOn_iff]

/-- No module reports a group exactly if no module depends on itself. -/
lemma IsLinked.cycles_eq_nil_iff (hg : g.IsLinked) :
    g.cycles = [] ↔ ∀ m, ¬ TransGen (Step g.dependencies) m m := by
  simp only [cycles, List.map_eq_nil_iff, List.filterMap_eq_nil_iff, List.mem_mergeSort,
    ite_eq_right_iff, reduceCtorEq, imp_false, beq_iff_eq]
  constructor
  · intro hnone m hm
    have hself : m ∈ g.component m :=
      hg.mem_component_iff.2 ⟨hg.mem_modules_of_cycle hm, hm, hm⟩
    obtain ⟨first, rest, hfirst⟩ := List.exists_cons_of_ne_nil (List.ne_nil_of_mem hself)
    have hmem : first ∈ g.component m := by rw [hfirst]; exact List.mem_cons_self
    obtain ⟨hmodule, hto, hback⟩ := hg.mem_component_iff.1 hmem
    refine hnone first hmodule ?_
    rw [← hg.component_eq hto hback, hfirst]
    rfl
  · intro hacyclic m _ hhead
    exact hacyclic m (hg.mem_component_iff.1 (List.mem_of_head? hhead)).2.1

/-- A registry passes exactly if no module depends on itself through others. -/
theorem rejectCycle_ofRegistry_ok_iff {reg : Registry} :
    (ofRegistry reg).rejectCycle = .ok () ↔
      ∀ m, ¬ TransGen (ModuleDepends reg.declarations) m m := by
  have hstep : Step (ofRegistry reg).dependencies = ModuleDepends reg.declarations := by
    funext a b
    exact propext step_dependencies_iff
  rw [← hstep, ← (ofRegistry_spec reg).1.cycles_eq_nil_iff, rejectCycle]
  cases (ofRegistry reg).cycles <;> simp

end ModuleGraph

end WireContract.Schema
