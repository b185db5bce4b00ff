import WireContract.Proofs.CycleReports

/-!
# What a graph of modules holds

After any sequence of edits, a graph of modules is determined by what the edits say
(`built_represents_edits`).  An edit brings up modules: the one it adds, or the two between which it
records a mention.  A mention within a module is passed over, and brings up none, not even the
module it is in (`inner_mention_brings_up_none`).  The modules stand in the graph in the order in
which they first come up, the edges keep exactly the mentions between two modules, and the
dependencies of a module are read off the edges.

That edits keep names, numbers and edges together is `IsLinked`, which holds of every graph that is
built (`holds_built`).  What is added here is the order of the modules.
-/

namespace WireContract.Schema.ModuleGraph

/-! ## The order of modules -/

/-- The modules that an edit brings up, in order. -/
def Edit.modules : Edit → List String
  | .module name => [name]
  | .mention source target =>
    if source.module = target.module then [] else [source.module, target.module]

variable {edits : List Edit} {g : ModuleGraph}

/-- If the modules are in the order in which names came up, they still are when one more name
comes up. -/
lemma IsNumbered.modules_addModule_eq_eraseDups (h : g.IsNumbered) {names : List String}
    (hg : g.modules = names.eraseDups) (m : String) :
    (g.addModule m).1.modules = (names ++ [m]).eraseDups := by
  rw [h.modules_addModule, List.eraseDups_append, hg]
  by_cases hm : m ∈ names
  · rw [if_pos (List.mem_eraseDups.2 hm)]
    simp [hm, List.removeAll]
  · rw [if_neg fun hmem => hm (List.mem_eraseDups.1 hmem)]
    simp [hm, List.removeAll, List.eraseDups_cons]

/-- An edit adds the modules it brings up to those that came up before. -/
lemma Holds.modules_edit (h : Holds edits g)
    (hg : g.modules = (edits.flatMap Edit.modules).eraseDups) (e : Edit) :
    (g.edit e).modules = ((edits ++ [e]).flatMap Edit.modules).eraseDups := by
  rw [List.flatMap_append, List.flatMap_singleton]
  cases e with
  | module name => exact h.linked.numbered.modules_addModule_eq_eraseDups hg name
  | mention source target =>
    rw [ModuleGraph.edit, Edit.modules]
    by_cases hsame : source.module = target.module
    · rw [addMention_of_eq hsame, if_pos hsame, List.append_nil, hg]
    · have hsource := h.linked.numbered.modules_addModule_eq_eraseDups hg source.module
      have htarget := (h.linked.numbered.addModule source.module).modules_addModule_eq_eraseDups
        hsource target.module
      rw [addMention_of_ne hsame, if_neg hsame]
      rwa [List.append_assoc] at htarget

lemma modules_built (edits : List Edit) :
    (built edits).modules = (edits.flatMap Edit.modules).eraseDups := by
  induction edits using List.reverseRecOn with
  | nil => rfl
  | append_singleton edits e ih =>
    rw [built, List.foldl_concat]
    exact (holds_built edits).modules_edit ih e

/-! ## What edits leave behind -/

/-- The graph that some edits leave behind. -/
structure Represents (edits : List Edit) (g : ModuleGraph) : Prop where
  /-- Modules are in the order in which edits first bring them up. -/
  modules : g.modules = (edits.flatMap Edit.modules).eraseDups
  /-- A module that edits bring up is at exactly one place. -/
  node : ∀ m, m ∈ edits.flatMap Edit.modules ↔ ∃! i : ℕ, g.modules[i]? = some m
  /-- This place is the number of the module. -/
  number : ∀ m i, g.index? m = some i ↔ g.modules[i]? = some m
  /-- Adding a module gives the number that it has afterwards. -/
  given : ∀ m, (g.addModule m).1.index? m = some (g.addModule m).2
  /-- There is at most one edge between two modules. -/
  single : (g.edges.map ModuleEdge.ends).Nodup
  /-- No edge leads from a module to itself. -/
  loopless : ∀ e ∈ g.edges, e.source ≠ e.target
  /-- The edge between two modules has the recorded mentions from one to the other. -/
  pairs : ∀ a b p, (∃ e ∈ g.edges, g.modules[e.source]? = some a ∧ g.modules[e.target]? = some b ∧
    p ∈ e.mentions) ↔ .mention p.1 p.2 ∈ edits ∧ p.1.module = a ∧ p.2.module = b ∧ a ≠ b
  /-- An edge has mentions, in order and each once. -/
  sorted : ∀ e ∈ g.edges, e.mentions ≠ [] ∧ MentionsSorted e.mentions
  /-- Dependencies come in strictly ascending order. -/
  ascending : ∀ m, (g.dependencies m).Pairwise (· < ·)
  /-- A module depends on those other modules to which a recorded mention leads. -/
  depends : ∀ m n, n ∈ g.dependencies m ↔
    n ≠ m ∧ ∃ source target, .mention source target ∈ edits ∧ source.module = m ∧ target.module = n
  /-- A module without a number depends on none. -/
  unknown : ∀ m, g.index? m = none → g.dependencies m = []

lemma Holds.pairs_iff (h : Holds edits g) {a b : String} {p : QualifiedName × QualifiedName} :
    (∃ e ∈ g.edges, g.modules[e.source]? = some a ∧ g.modules[e.target]? = some b ∧
      p ∈ e.mentions) ↔ .mention p.1 p.2 ∈ edits ∧ p.1.module = a ∧ p.2.module = b ∧ a ≠ b := by
  constructor
  · rintro ⟨e, he, hsource, htarget, hp⟩
    obtain ⟨hedit, hne⟩ := (h.mentions p).1 (mem_mentions_iff.2 ⟨e, he, hp⟩)
    obtain ⟨hsource', htarget'⟩ := (h.linked.sound e he).leads p hp
    obtain rfl := Option.some.inj (hsource.symm.trans hsource')
    obtain rfl := Option.some.inj (htarget.symm.trans htarget')
    exact ⟨hedit, rfl, rfl, hne⟩
  · rintro ⟨hedit, rfl, rfl, hne⟩
    obtain ⟨e, he, hp⟩ := mem_mentions_iff.1 ((h.mentions p).2 ⟨hedit, hne⟩)
    obtain ⟨hsource, htarget⟩ := (h.linked.sound e he).leads p hp
    exact ⟨e, he, hsource, htarget, hp⟩

lemma Holds.mem_dependencies_iff (h : Holds edits g) {m n : String} :
    n ∈ g.dependencies m ↔ n ≠ m ∧ ∃ source target,
      .mention source target ∈ edits ∧ source.module = m ∧ target.module = n := by
  have hstep : n ∈ g.dependencies m ↔ Recorded edits m n := by rw [← h.step_eq, Graph.Step]
  rw [hstep, Recorded, ne_comm]

lemma IsLinked.pairwise_dependencies (h : g.IsLinked) (m : String) :
    (g.dependencies m).Pairwise (· < ·) := by
  have hnodup := h.nodup_dependencies m
  rw [dependencies] at hnodup ⊢
  cases hindex : g.index? m with
  | none => exact List.Pairwise.nil
  | some i =>
    rw [hindex] at hnodup
    exact pairwise_lt_mergeSort ((List.mergeSort_perm _ _).nodup_iff.1 hnodup)

/-- After any sequence of edits, the graph represents them: modules in the order in which they first
come up, one edge at most between two modules with the mentions from one to the other, and the
dependencies that these edges give. -/
theorem built_represents_edits (edits : List Edit) : Represents edits (built edits) := by
  have h := holds_built edits
  refine ⟨modules_built edits, fun m => ?_, h.linked.numbered, fun m => ?_, h.linked.single,
    fun e he => (h.linked.sound e he).loopless, fun a b p => h.pairs_iff,
    fun e he => ⟨(h.linked.sound e he).behind, (h.linked.sound e he).sorted⟩,
    h.linked.pairwise_dependencies, fun m n => h.mem_dependencies_iff, fun m hm => ?_⟩
  · rw [← List.mem_eraseDups, ← modules_built, List.mem_iff_getElem?]
    constructor
    · rintro ⟨i, hi⟩
      exact ⟨i, hi, fun j hj => h.linked.numbered.number_eq hj hi⟩
    · rintro ⟨i, hi, -⟩
      exact ⟨i, hi⟩
  · exact (h.linked.numbered.addModule m _ _).2 (h.linked.numbered.getElem?_addModule m)
  · rw [dependencies, hm]

/-! ## Mentions within a module -/

/-- The modules that an edit names, in order. -/
def Edit.named : Edit → List String
  | .module name => [name]
  | .mention source target => [source.module, target.module]

/-- A mention within a module, then another module and the same one. -/
def innerFirst : List Edit :=
  [.mention ⟨"a", "X"⟩ ⟨"a", "Y"⟩, .module "b", .module "a"]

/-- A mention within a module does not bring it up, so modules are not in the order in which edits
first name them, and a module that is named may have no place at all. -/
theorem inner_mention_brings_up_none :
    "a" ∈ (innerFirst.take 1).flatMap Edit.named ∧ (built (innerFirst.take 1)).modules = [] ∧
    (innerFirst.flatMap Edit.named).eraseDups = ["a", "b"] ∧
    (built innerFirst).modules = ["b", "a"] ∧
    ¬ ∀ edits, (built edits).modules = (edits.flatMap Edit.named).eraseDups := by
  have hnamed : (innerFirst.flatMap Edit.named).eraseDups = ["a", "b"] := by decide
  have hbuilt : (built innerFirst).modules = ["b", "a"] := by decide
  refine ⟨by decide, by decide, hnamed, hbuilt, fun h => ?_⟩
  have heq := h innerFirst
  rw [hnamed, hbuilt] at heq
  exact absurd heq (by decide)

end WireContract.Schema.ModuleGraph
