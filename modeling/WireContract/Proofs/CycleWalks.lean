import Mathlib.Data.List.Cycle
import Mathlib.Order.Bounds.Basic
import WireContract.Proofs.ClosingWalks
import WireContract.Proofs.CycleReports

/-!
# How a cycle of modules is reported

A report names the modules of a group and, to show why they are one, a chain of mentions.  The chain
goes along a closed walk of dependencies from the least module of the group, through distinct
modules of the group and no longer than any closed walk through that module; for each dependency it
has the least mention behind it (`report_is_shortest_closing_walk`).

The walk is found by `Graph.closingWalk?` among the modules of the group alone.  Nothing is lost by
leaving the other modules out, since the modules of a closed walk reach one another.
-/

namespace WireContract.Schema

namespace ModuleGraph

open Relation WireContract.Graph

variable {edits : List Edit} {g : ModuleGraph}

/-- The recorded mentions behind a dependency. -/
def RecordedBetween (edits : List Edit) (a b : String) : Set (QualifiedName × QualifiedName) :=
  {p | .mention p.1 p.2 ∈ edits ∧ p.1.module = a ∧ p.2.module = b}

/-- The least of the recorded mentions behind a dependency. -/
def IsLeastMention (edits : List Edit) (a b : String) (p : QualifiedName × QualifiedName) : Prop :=
  p ∈ RecordedBetween edits a b ∧ ∀ p' ∈ RecordedBetween edits a b, mentionKey p ≤ mentionKey p'

lemma Holds.mem_mentionsBetween_iff (h : Holds edits g) {a b : String} (hne : a ≠ b)
    {p : QualifiedName × QualifiedName} :
    p ∈ g.mentionsBetween a b ↔ p ∈ RecordedBetween edits a b := by
  rw [h.linked.mem_mentionsBetween_iff, h.mentions]
  constructor
  · rintro ⟨⟨hedit, -⟩, hsource, htarget⟩
    exact ⟨hedit, hsource, htarget⟩
  · rintro ⟨hedit, hsource, htarget⟩
    refine ⟨⟨hedit, ?_⟩, hsource, htarget⟩
    rwa [hsource, htarget]

/-- Behind a recorded dependency there is a least mention, and it is the one that is found. -/
lemma Holds.exists_leastMention (h : Holds edits g) {a b : String} (hab : Recorded edits a b) :
    ∃ p, g.leastMention? a b = some p ∧ IsLeastMention edits a b p := by
  obtain ⟨hne, source, target, hedit, hsource, htarget⟩ := hab
  have hmem : (source, target) ∈ g.mentionsBetween a b :=
    (h.mem_mentionsBetween_iff hne).2 ⟨hedit, hsource, htarget⟩
  have hsorted := h.linked.sorted_mentionsBetween a b
  rw [leastMention?]
  cases hlist : g.mentionsBetween a b with
  | nil =>
    rw [hlist] at hmem
    exact (List.not_mem_nil hmem).elim
  | cons p others =>
    have hrecorded : ∀ p', p' ∈ p :: others ↔ p' ∈ RecordedBetween edits a b := by
      intro p'
      rw [← hlist, h.mem_mentionsBetween_iff hne]
    rw [hlist] at hsorted
    refine ⟨p, rfl, (hrecorded p).1 List.mem_cons_self, fun p' hp' => ?_⟩
    rcases List.mem_cons.1 ((hrecorded p').2 hp') with rfl | hother
    · exact le_rfl
    · exact (List.rel_of_pairwise_cons hsorted hother).le

/-! ## Walks within a group -/

/-- All modules of a closed walk are in one group. -/
lemma Holds.mem_component_of_walk (h : Holds edits g) {walk : Cycle String}
    (hwalk : walk.Chain (Recorded edits)) {a b : String} (ha : a ∈ walk) (hb : b ∈ walk) :
    b ∈ g.component a := by
  have hreach := Cycle.chain_iff_pairwise.1 (hwalk.imp fun _ _ => TransGen.single)
  exact h.mem_component_iff.2 ⟨hreach a ha b hb, hreach b hb a ha⟩

lemma Holds.step_dependenciesWithin_iff (h : Holds edits g) {members : List String}
    {a b : String} :
    Step (g.dependenciesWithin members) a b ↔ Recorded edits a b ∧ b ∈ members := by
  rw [Step, dependenciesWithin, List.mem_filter, List.contains_iff_mem, ← h.step_eq]
  exact Iff.rfl

/-- Where a module goes on its way back to itself, it goes within its group. -/
lemma Holds.transGen_within (h : Holds edits g) {m b : String}
    (hto : TransGen (Recorded edits) m b) (hback : ReflTransGen (Recorded edits) b m) :
    TransGen (Step (g.dependenciesWithin (g.component m))) m b := by
  have hmember : ∀ b, TransGen (Recorded edits) m b → ReflTransGen (Recorded edits) b m →
      b ∈ g.component m := by
    intro b hto hback
    refine h.mem_component_iff.2 ⟨hto, ?_⟩
    rcases reflTransGen_iff_eq_or_transGen.1 hback with rfl | hback
    · exact hto
    · exact hback
  induction hto with
  | @single b hstep =>
    exact .single (h.step_dependenciesWithin_iff.2 ⟨hstep, hmember b (.single hstep) hback⟩)
  | @tail c b hto hstep ih =>
    refine .tail (ih (.head hstep hback)) ?_
    exact h.step_dependenciesWithin_iff.2 ⟨hstep, hmember b (.tail hto hstep) hback⟩

/-- A closed walk through an element can be read from it on. -/
lemma exists_cons_of_mem {α : Type} {c : Cycle α} {a : α} (ha : a ∈ c) :
    ∃ l : List α, c = ↑(a :: l) := by
  induction c using Quotient.inductionOn' with
  | _ l =>
    obtain ⟨before, after, rfl⟩ := List.append_of_mem (Cycle.mem_coe_iff.1 ha)
    exact ⟨after ++ before, Cycle.coe_eq_coe.2 List.isRotated_append⟩

/-- What holds of each element and what is found for it holds of the list of what is found. -/
lemma forall₂_filterMap {α β : Type} {f : α → Option β} {R : α → β → Prop} {l : List α}
    (h : ∀ a ∈ l, ∃ b, f a = some b ∧ R a b) : List.Forall₂ R l (l.filterMap f) := by
  induction l with
  | nil => exact .nil
  | cons a l ih =>
    obtain ⟨⟨b, hb, hab⟩, hrest⟩ := List.forall_mem_cons.1 h
    rw [List.filterMap_cons, hb]
    exact .cons hab (ih hrest)

/-! ## Reports -/

/-- The chain of a report goes along a shortest closed walk, given by its first module and the rest
of its modules. -/
structure ShortestReport (edits : List Edit) (cycle : ModuleCycle) (first : String)
    (rest : List String) : Prop where
  /-- The walk starts at the least module of the group. -/
  least : IsLeast {m | m ∈ cycle.modules} first
  /-- It goes through distinct modules of the group. -/
  distinct : (first :: rest).Nodup
  members : first :: rest ⊆ cycle.modules
  /-- It has two steps or more, and the chain has one entry for each. -/
  length : cycle.chain.length = (first :: rest).length
  two_le_length : 2 ≤ cycle.chain.length
  /-- The entry of a step is the least mention behind its dependency; the last step goes back to the
  first module. -/
  entries : List.Forall₂ (fun step p => IsLeastMention edits step.1 step.2 p)
    ((first :: rest).zip (rest ++ [first])) cycle.chain
  /-- No closed walk of dependencies through the first module has fewer steps. -/
  shortest : ∀ walk : Cycle String, first ∈ walk → walk.Chain (Recorded edits) →
    cycle.chain.length ≤ walk.length

/-- The chain of a described group has an entry for each step of the walk that was found. -/
lemma chain_describe {members : List String} {first : String} {rest : List String}
    (hhead : members.head? = some first)
    (hfound : closingWalk? (g.dependenciesWithin members) members.length first =
      some (first :: (rest ++ [first]))) :
    (g.describe members).chain = ((first :: rest).zip (rest ++ [first])).filterMap fun step =>
      g.leastMention? step.1 step.2 := by
  have hzip : (first :: (rest ++ [first])).zip (rest ++ [first]) =
      (first :: rest).zip (rest ++ [first]) := by
    have happend := @List.zip_append _ _ (first :: rest) [first] (rest ++ [first]) [] (by simp)
    simpa using happend
  simp only [describe, List.headD_eq_head?_getD, hhead, Option.getD_some, hfound, List.drop_one,
    List.tail_cons, hzip]

/-- A closed walk from a module, given by the modules after it, is as long as the chain that has its
least mentions, and has two steps or more. -/
lemma length_chain {chain : List (QualifiedName × QualifiedName)} {first : String}
    {rest : List String} (hwalk : (first :: (rest ++ [first])).IsChain (Recorded edits))
    (hentries : List.Forall₂ (fun step p => IsLeastMention edits step.1 step.2 p)
      ((first :: rest).zip (rest ++ [first])) chain) :
    chain.length = (first :: rest).length ∧ 2 ≤ chain.length := by
  have hlength : chain.length = (first :: rest).length := by
    rw [← hentries.length_eq, List.length_zip]
    simp
  refine ⟨hlength, ?_⟩
  cases rest with
  | nil =>
    have hself : Recorded edits first first := by simpa using hwalk
    exact (hself.1 rfl).elim
  | cons m rest =>
    rw [hlength, List.length_cons, List.length_cons]
    omega

/-- The first module of a group is the least. -/
lemma Holds.isLeast_head (h : Holds edits g) {m first : String}
    (hhead : (g.component m).head? = some first) : IsLeast {a | a ∈ g.component m} first := by
  refine ⟨List.mem_of_head? hhead, fun a ha => ?_⟩
  obtain ⟨others, hothers⟩ := List.head?_eq_some_iff.1 hhead
  have hsorted := h.pairwise_component m
  rw [Set.mem_ofPred_eq, hothers] at ha
  rw [hothers] at hsorted
  rcases List.mem_cons.1 ha with rfl | ha
  · exact le_rfl
  · exact (List.rel_of_pairwise_cons hsorted ha).le

/-- A closed walk from a module, given by the modules after it, stays within the group. -/
lemma Holds.isChain_within (h : Holds edits g) {first : String} {other : List String}
    (hclosed : Cycle.Chain (Recorded edits) (first :: other : List String)) :
    (first :: (other ++ [first])).IsChain (Step (g.dependenciesWithin (g.component first))) := by
  have hfirst : first ∈ ((first :: other : List String) : Cycle String) :=
    Cycle.mem_coe_iff.2 List.mem_cons_self
  refine List.IsChain.imp_of_mem_tail_imp (fun a b _ hb hab => ?_) hclosed
  refine h.step_dependenciesWithin_iff.2 ⟨hab, h.mem_component_of_walk hclosed hfirst ?_⟩
  rcases List.mem_append.1 hb with hb | hb
  · exact Cycle.mem_coe_iff.2 (List.mem_cons_of_mem _ hb)
  · rw [List.mem_singleton.1 hb]
    exact hfirst

/-- Each step of a walk of dependencies has a least mention, which is found. -/
lemma Holds.forall₂_leastMention (h : Holds edits g) {first : String} {rest : List String}
    (hwalk : (first :: (rest ++ [first])).IsChain (Recorded edits)) :
    List.Forall₂ (fun step p => IsLeastMention edits step.1 step.2 p)
      ((first :: rest).zip (rest ++ [first]))
      (((first :: rest).zip (rest ++ [first])).filterMap fun step =>
        g.leastMention? step.1 step.2) := by
  have hsteps := List.forall₂_iff_zip.1 (List.isChain_cons_append_singleton_iff_forall₂.1 hwalk)
  exact forall₂_filterMap fun step hstep => h.exists_leastMention (hsteps.2 hstep)

/-- After any sequence of edits, the chain of each reported group goes along a closed walk of two or
more recorded dependencies, from the least module of the group through distinct modules of it, and
no closed walk through that module is shorter.  Each entry is the least mention behind its
dependency.  The search for the walk ends by itself and finds the origin of every node it goes back
to. -/
theorem report_is_shortest_closing_walk (edits : List Edit) (cycle : ModuleCycle)
    (hcycle : cycle ∈ (built edits).cycles) :
    ∃ first rest, ShortestReport edits cycle first rest ∧
      closingWalk? ((built edits).dependenciesWithin cycle.modules) cycle.modules.length first =
        some (first :: (rest ++ [first])) := by
  have h := holds_built edits
  obtain ⟨first, hhead, rfl⟩ := h.mem_cycles_iff.1 hcycle
  have hfirst : first ∈ (built edits).component first := List.mem_of_head? hhead
  have hloop := (h.mem_component_iff.1 hfirst).1
  obtain ⟨rest, hfound, hnodup, hsub, hchain, hleast⟩ := exists_closingWalk
    (fun a _ b hb => (h.step_dependenciesWithin_iff.1 hb).2) hfirst (Nat.le_refl _)
    (h.transGen_within hloop .refl)
  have hwalk : (first :: (rest ++ [first])).IsChain (Recorded edits) :=
    hchain.imp fun _ _ hstep => (h.step_dependenciesWithin_iff.1 hstep).1
  have hentries := h.forall₂_leastMention hwalk
  rw [← chain_describe hhead hfound] at hentries
  obtain ⟨hlength, htwo⟩ := length_chain hwalk hentries
  refine ⟨first, rest, ⟨h.isLeast_head hhead, hnodup, hsub, hlength, htwo, hentries,
    fun walk hmem hclosed => ?_⟩, hfound⟩
  obtain ⟨other, rfl⟩ := exists_cons_of_mem hmem
  have hle := hleast other (h.isChain_within hclosed)
  rw [hlength, Cycle.length_coe, List.length_cons, List.length_cons]
  omega

/-- Edits that make a ring of four modules with a chord, and record three mentions behind one of the
dependencies. -/
def chordedRing : List Edit :=
  [.mention ⟨"d", "Low"⟩ ⟨"a", "Top"⟩, .mention ⟨"c", "Mid"⟩ ⟨"d", "Low"⟩,
    .mention ⟨"b", "Side"⟩ ⟨"d", "Low"⟩, .mention ⟨"b", "Side"⟩ ⟨"c", "Mid"⟩,
    .mention ⟨"a", "Top"⟩ ⟨"b", "Side"⟩, .mention ⟨"a", "Rim"⟩ ⟨"b", "Side"⟩,
    .mention ⟨"a", "Rim"⟩ ⟨"b", "Edge"⟩]

/-- The report takes the chord, and the least of the mentions behind the first step. -/
theorem report_is_shortest_closing_walk_chordedRing :
    (built chordedRing).cycles = [⟨["a", "b", "c", "d"],
      [(⟨"a", "Rim"⟩, ⟨"b", "Edge"⟩), (⟨"b", "Side"⟩, ⟨"d", "Low"⟩),
        (⟨"d", "Low"⟩, ⟨"a", "Top"⟩)]⟩] ∧
      ∀ walk : Cycle String, "a" ∈ walk → walk.Chain (Recorded chordedRing) → 3 ≤ walk.length := by
  have hcycles : (built chordedRing).cycles = [⟨["a", "b", "c", "d"],
      [(⟨"a", "Rim"⟩, ⟨"b", "Edge"⟩), (⟨"b", "Side"⟩, ⟨"d", "Low"⟩),
        (⟨"d", "Low"⟩, ⟨"a", "Top"⟩)]⟩] := by cbv
  refine ⟨hcycles, fun walk hmem hwalk => ?_⟩
  obtain ⟨first, rest, hreport, -⟩ := report_is_shortest_closing_walk chordedRing _
    (hcycles ▸ List.mem_cons_self)
  have hle : ∀ m ∈ ["a", "b", "c", "d"], "a" ≤ m := by decide
  have hfirst : IsLeast {m | m ∈ ["a", "b", "c", "d"]} "a" := ⟨List.mem_cons_self, hle⟩
  have hshortest := hreport.shortest
  rw [hreport.least.unique hfirst] at hshortest
  exact hshortest walk hmem hwalk

end ModuleGraph

end WireContract.Schema
