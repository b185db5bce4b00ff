import Mathlib
import WireContract.Proofs.ModuleCycles

/-!
# Which cycles of modules are reported

A graph of modules is built by any sequence of edits.  What the edits record is a relation between
modules (`Recorded`), and the report is compared with that relation alone: a report is a set of two
or more modules that reach one another and to which no module can be added (`MutuallyReachable`).
Every such set is reported, once (`cycles_are_maximal_components`).

Two things carry the argument.  The graph keeps its modules apart and has exactly the recorded
dependencies, whatever the order of edits (`Holds.edit`).  And a component is known by any of its
modules: all have the same one, so that the least of them, which reports it, stands for all.
-/

namespace WireContract.Schema.ModuleGraph

open Relation WireContract.Graph

/-! ## Building a graph -/

/-- A change to a graph: a module or a mention is added. -/
inductive Edit where
  | module (name : String)
  | mention (source target : QualifiedName)
deriving DecidableEq, Repr

/-- The graph after a change. -/
def edit (g : ModuleGraph) : Edit → ModuleGraph
  | .module name => g.insertModule name
  | .mention source target => g.addMention source target

/-- The graph that a sequence of changes makes of the empty one. -/
def built (edits : List Edit) : ModuleGraph := edits.foldl edit empty

/-- The edits record that a module depends on another: a declaration of the one mentions a
declaration of the other. -/
def Recorded (edits : List Edit) (a b : String) : Prop :=
  a ≠ b ∧ ∃ source target, .mention source target ∈ edits ∧ source.module = a ∧ target.module = b

/-- The graph has each module once, and exactly the dependencies that the edits record. -/
structure Holds (edits : List Edit) (g : ModuleGraph) : Prop where
  linked : g.IsLinked
  mentions : ∀ p, p ∈ g.mentions ↔ .mention p.1 p.2 ∈ edits ∧ p.1.module ≠ p.2.module

variable {edits : List Edit} {g : ModuleGraph}

lemma Holds.nodup (h : Holds edits g) : g.modules.Nodup :=
  h.linked.numbered.nodup

lemma holds_empty : Holds [] empty := by
  refine ⟨isLinked_empty, ?_⟩
  simp [empty, ModuleGraph.mentions]

/-- One more edit is recorded, and what was recorded stays. -/
lemma Holds.edit (h : Holds edits g) (e : Edit) : Holds (edits ++ [e]) (g.edit e) := by
  cases e with
  | module name =>
    refine ⟨h.linked.addModule name, fun p => ?_⟩
    simp [ModuleGraph.edit, h.mentions]
  | mention source target =>
    refine ⟨h.linked.addMention source target, fun p => ?_⟩
    have hpair : p = (source, target) ↔ Edit.mention p.1 p.2 = .mention source target := by
      rw [Edit.mention.injEq, Prod.ext_iff]
    rw [ModuleGraph.edit, mem_mentions_addMention, h.mentions, List.mem_append,
      List.mem_singleton, hpair, or_and_right]

lemma holds_built (edits : List Edit) : Holds edits (built edits) := by
  induction edits using List.reverseRecOn with
  | nil => exact holds_empty
  | append_singleton edits e ih =>
    rw [built, List.foldl_concat]
    exact ih.edit e

/-- The dependencies of the graph are those that the edits record. -/
lemma Holds.step_eq (h : Holds edits g) : Step g.dependencies = Recorded edits := by
  funext a b
  refine propext ?_
  rw [Step, h.linked.mem_dependencies_iff]
  constructor
  · rintro ⟨source, target, hmem, rfl, rfl⟩
    obtain ⟨hedit, hne⟩ := (h.mentions _).1 hmem
    exact ⟨hne, source, target, hedit, rfl, rfl⟩
  · rintro ⟨hne, source, target, hedit, rfl, rfl⟩
    exact ⟨source, target, (h.mentions _).2 ⟨hedit, hne⟩, rfl, rfl⟩

/-! ## Components -/

/-- Two or more modules, each of which reaches all the others along recorded dependencies. -/
def MutuallyReachable (edits : List Edit) (s : Set String) : Prop :=
  s.Nontrivial ∧ s.Pairwise (TransGen (Recorded edits))

/-- A list of modules without repetition is strictly ascending once it is sorted. -/
lemma pairwise_lt_mergeSort {modules : List String} (h : modules.Nodup) :
    (modules.mergeSort fun a b => decide (a ≤ b)).Pairwise (· < ·) := by
  have hsorted := List.pairwise_mergeSort' (· ≤ ·) modules
  have hnodup : (modules.mergeSort fun a b => decide (a ≤ b)).Nodup :=
    (List.mergeSort_perm _ _).nodup_iff.2 h
  exact (hsorted.and hnodup).imp fun h => lt_of_le_of_ne h.1 h.2

lemma Holds.pairwise_component (h : Holds edits g) (m : String) :
    (g.component m).Pairwise (· < ·) :=
  pairwise_lt_mergeSort (h.nodup.filter _)

lemma Holds.mem_component_iff (h : Holds edits g) {a b : String} :
    b ∈ g.component a ↔ TransGen (Recorded edits) a b ∧ TransGen (Recorded edits) b a := by
  rw [h.linked.mem_component_iff, h.step_eq]
  refine and_iff_right_of_imp fun hab => h.linked.mem_modules_of_cycle ?_
  rw [h.step_eq]
  exact hab.2.trans hab.1

lemma Holds.component_eq (h : Holds edits g) {a b : String} (hb : b ∈ g.component a) :
    g.component b = g.component a := by
  obtain ⟨hto, hback⟩ := h.mem_component_iff.1 hb
  rw [← h.step_eq] at hto hback
  exact h.linked.component_eq hback hto

/-- A module that depends on itself does so through another one. -/
lemma exists_ne_of_cycle {m : String} (hm : TransGen (Recorded edits) m m) :
    ∃ x ≠ m, TransGen (Recorded edits) m x ∧ TransGen (Recorded edits) x m := by
  obtain ⟨x, hstep, hback⟩ := TransGen.head'_iff.1 hm
  have hne : x ≠ m := hstep.1.symm
  refine ⟨x, hne, .single hstep, ?_⟩
  exact (reflTransGen_iff_eq_or_transGen.1 hback).resolve_left fun heq => hne heq.symm

/-- The component of a module that depends on itself is a set of modules that reach one another, and
no module can be added to it. -/
lemma Holds.maximal_component (h : Holds edits g) {m : String}
    (hm : TransGen (Recorded edits) m m) :
    Maximal (MutuallyReachable edits) {x | x ∈ g.component m} := by
  obtain ⟨x, hne, hto, hback⟩ := exists_ne_of_cycle hm
  have hself : m ∈ g.component m := h.mem_component_iff.2 ⟨hm, hm⟩
  refine ⟨⟨⟨m, hself, x, h.mem_component_iff.2 ⟨hto, hback⟩, hne.symm⟩, ?_⟩, ?_⟩
  · intro a ha b hb _
    exact (h.mem_component_iff.1 ha).2.trans (h.mem_component_iff.1 hb).1
  · intro s hs hsub b hb
    by_cases hbm : b = m
    · rw [hbm]
      exact hself
    · have hms : m ∈ s := hsub hself
      exact h.mem_component_iff.2 ⟨hs.2 hms hb (Ne.symm hbm), hs.2 hb hms hbm⟩

/-- A set of modules that reach one another, to which no module can be added, is the component of
each of its modules. -/
lemma Holds.eq_component (h : Holds edits g) {s : Set String}
    (hs : Maximal (MutuallyReachable edits) s) {m : String} (hm : m ∈ s) :
    TransGen (Recorded edits) m m ∧ s = {x | x ∈ g.component m} := by
  obtain ⟨⟨hmany, hreach⟩, -⟩ := id hs
  obtain ⟨x, hx, hne⟩ := hmany.exists_ne m
  have hcycle : TransGen (Recorded edits) m m :=
    (hreach hm hx hne.symm).trans (hreach hx hm hne)
  have hsub : s ⊆ {x | x ∈ g.component m} := by
    intro b hb
    by_cases hbm : b = m
    · rw [hbm]
      exact h.mem_component_iff.2 ⟨hcycle, hcycle⟩
    · exact h.mem_component_iff.2 ⟨hreach hm hb (Ne.symm hbm), hreach hb hm hbm⟩
  exact ⟨hcycle, hs.eq_of_subset (h.maximal_component hcycle).prop hsub⟩

/-! ## Reports -/

/-- A report is the component of the first of its modules. -/
lemma Holds.mem_cycles_iff (h : Holds edits g) {cycle : ModuleCycle} :
    cycle ∈ g.cycles ↔
      ∃ m, (g.component m).head? = some m ∧ cycle = g.describe (g.component m) := by
  simp only [cycles, List.mem_map, List.mem_filterMap, List.mem_mergeSort,
    Option.ite_none_right_eq_some, beq_iff_eq, Option.some.injEq]
  constructor
  · rintro ⟨_, ⟨m, -, hhead, rfl⟩, rfl⟩
    exact ⟨m, hhead, rfl⟩
  · rintro ⟨m, hhead, rfl⟩
    have hm := h.linked.mem_component_iff.1 (List.mem_of_head? hhead)
    exact ⟨_, ⟨m, hm.1, hhead, rfl⟩, rfl⟩

@[simp] lemma modules_describe (members : List String) :
    (g.describe members).modules = members := rfl

/-- Reports come in the order of their first modules. -/
lemma Holds.pairwise_cycles (h : Holds edits g) :
    (g.cycles.map (·.modules)).Pairwise (· < ·) := by
  simp only [cycles, List.map_map, Function.comp_def, modules_describe, List.map_id']
  refine (pairwise_lt_mergeSort h.nodup).filterMap _
    fun a b hab members hmembers members' hmembers' => ?_
  simp only [Option.ite_none_right_eq_some, beq_iff_eq, Option.some.injEq] at hmembers hmembers'
  obtain ⟨hhead, rfl⟩ := hmembers
  obtain ⟨hhead', rfl⟩ := hmembers'
  obtain ⟨rest, hrest⟩ := List.head?_eq_some_iff.1 hhead
  obtain ⟨rest', hrest'⟩ := List.head?_eq_some_iff.1 hhead'
  rw [hrest, hrest']
  exact List.cons_lt_cons_iff.2 (Or.inl hab)

/-- Every component is reported by the first of its modules. -/
lemma Holds.describe_mem_cycles (h : Holds edits g) {m : String}
    (hm : TransGen (Recorded edits) m m) : g.describe (g.component m) ∈ g.cycles := by
  have hself : m ∈ g.component m := h.mem_component_iff.2 ⟨hm, hm⟩
  obtain ⟨first, rest, hfirst⟩ := List.exists_cons_of_ne_nil (List.ne_nil_of_mem hself)
  have hmem : first ∈ g.component m := by
    rw [hfirst]
    exact List.mem_cons_self
  have hsame := h.component_eq hmem
  refine h.mem_cycles_iff.2 ⟨first, ?_, by rw [hsame]⟩
  rw [hsame, hfirst]
  rfl

lemma rejectCycle_ok_iff : g.rejectCycle = .ok () ↔ g.cycles = [] := by
  rw [rejectCycle]
  cases g.cycles <;> simp

lemma rejectCycle_error_iff {cycle : ModuleCycle} :
    g.rejectCycle = .error cycle ↔ g.cycles.head? = some cycle := by
  rw [rejectCycle]
  cases g.cycles <;> simp

/-- After any sequence of edits, what is reported are the maximal sets of two or more modules that
reach one another: every report is one, with its modules in ascending order, every such set has one
report, and the reports are in ascending order of their modules.  The graph is refused exactly if a
walk of recorded dependencies comes back to its start, and then by the first report. -/
theorem cycles_are_maximal_components (edits : List Edit) :
    (∀ cycle ∈ (built edits).cycles, Maximal (MutuallyReachable edits) {m | m ∈ cycle.modules} ∧
      cycle.modules.Pairwise (· < ·)) ∧
    (∀ s, Maximal (MutuallyReachable edits) s →
      ∃! cycle, cycle ∈ (built edits).cycles ∧ {m | m ∈ cycle.modules} = s) ∧
    ((built edits).cycles.map (·.modules)).Pairwise (· < ·) ∧
    ((built edits).rejectCycle = .ok () ↔ ∀ m, ¬ TransGen (Recorded edits) m m) ∧
    ∀ cycle,
      (built edits).rejectCycle = .error cycle ↔ (built edits).cycles.head? = some cycle := by
  have h := holds_built edits
  refine ⟨fun cycle hcycle => ?_, fun s hs => ?_, h.pairwise_cycles, ?_,
    fun cycle => rejectCycle_error_iff⟩
  · obtain ⟨m, hhead, rfl⟩ := h.mem_cycles_iff.1 hcycle
    have hm := h.mem_component_iff.1 (List.mem_of_head? hhead)
    exact ⟨h.maximal_component hm.1, h.pairwise_component m⟩
  · obtain ⟨m, hm⟩ := hs.prop.1.nonempty
    obtain ⟨hloop, hcomponent⟩ := h.eq_component hs hm
    refine ⟨_, ⟨h.describe_mem_cycles hloop, hcomponent.symm⟩, ?_⟩
    -- a report of the same set is the component of a module of the set
    rintro cycle ⟨hcycle, rfl⟩
    obtain ⟨first, hhead, rfl⟩ := h.mem_cycles_iff.1 hcycle
    have hfirst : first ∈ (built edits).component m := hcomponent.subset (List.mem_of_head? hhead)
    rw [h.component_eq hfirst]
  · rw [rejectCycle_ok_iff, h.linked.cycles_eq_nil_iff, h.step_eq]

/-- Edits that make two cycles which share a module and a third one apart, with a mention that is
made twice, a mention inside a module and a module that nothing mentions. -/
def twoGroups : List Edit :=
  [.module "spare", .mention ⟨"e", "Top"⟩ ⟨"d", "Low"⟩, .mention ⟨"d", "Low"⟩ ⟨"e", "Top"⟩,
    .mention ⟨"c", "Leaf"⟩ ⟨"b", "Node"⟩, .mention ⟨"b", "Node"⟩ ⟨"c", "Leaf"⟩,
    .mention ⟨"b", "Node"⟩ ⟨"a", "Root"⟩, .mention ⟨"b", "Node"⟩ ⟨"a", "Root"⟩,
    .mention ⟨"a", "Root"⟩ ⟨"a", "Root"⟩, .mention ⟨"a", "Root"⟩ ⟨"b", "Node"⟩]

/-- The reported modules are the components, each at its first module. -/
lemma map_modules_cycles (g : ModuleGraph) :
    g.cycles.map (·.modules) = (g.modules.mergeSort fun a b => decide (a ≤ b)).filterMap fun m =>
      if (g.component m).head? == some m then some (g.component m) else none := by
  rw [cycles, List.map_map]
  exact List.map_id _

/-- The cycles that share a module are one report, which is the first. -/
theorem cycles_are_maximal_components_twoGroups :
    (built twoGroups).cycles.map (·.modules) = [["a", "b", "c"], ["d", "e"]] ∧
    Maximal (MutuallyReachable twoGroups) {m | m ∈ ["a", "b", "c"]} ∧
    (∃! cycle, cycle ∈ (built twoGroups).cycles ∧
      {m | m ∈ cycle.modules} = {m | m ∈ ["a", "b", "c"]}) ∧
    ∃ cycle, (built twoGroups).rejectCycle = .error cycle ∧ cycle.modules = ["a", "b", "c"] := by
  obtain ⟨hreport, hset, -, -, hreject⟩ := cycles_are_maximal_components twoGroups
  have hmodules : (built twoGroups).cycles.map (·.modules) = [["a", "b", "c"], ["d", "e"]] := by
    rw [map_modules_cycles]
    cbv
  obtain ⟨first, rest, hcycles, hfirst, -⟩ := List.map_eq_cons_iff.1 hmodules
  have hmem : first ∈ (built twoGroups).cycles := by
    rw [hcycles]
    exact List.mem_cons_self
  have hmaximal := (hreport first hmem).1
  rw [hfirst] at hmaximal
  refine ⟨hmodules, hmaximal, hset _ hmaximal, first, (hreject first).2 ?_, hfirst⟩
  rw [hcycles]
  rfl

end WireContract.Schema.ModuleGraph
