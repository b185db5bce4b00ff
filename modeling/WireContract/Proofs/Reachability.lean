import Mathlib.Data.List.Nodup
import Mathlib.Data.List.Perm.Subperm
import Mathlib.Logic.Relation
import Mathlib.Tactic.Common
import WireContract.Graph.Reach

/-!
# What the bounded search finds

`Graph.reach` collects nodes in rounds, and the number of rounds is bounded.  Here the search is
compared with reachability as a relation: what it finds is reached (`closure_sound`), and it finds
everything once the bound is at least the number of nodes (`closure_closed`, `mem_reach_iff`).

The argument for the bound is a count.  Each round that goes on adds a node that was not there, all
nodes lie in a finite list that is closed under successors, so there are no more rounds than that
list has elements.  The list may name a node twice; only its length counts.
-/

namespace WireContract.Graph

open Relation

variable {α : Type} [BEq α] [LawfulBEq α]

/-- One step of a graph: from a node to one of its successors. -/
def Step (next : α → List α) (a b : α) : Prop := b ∈ next a

/-! ## Fresh elements -/

@[simp] lemma mem_fresh {seen l : List α} {a : α} : a ∈ fresh seen l ↔ a ∈ l ∧ a ∉ seen := by
  induction l generalizing seen with
  | nil => simp [fresh]
  | cons x l ih =>
    rw [fresh]
    by_cases hx : seen.contains x
    · have hxs : x ∈ seen := by simpa using hx
      rw [if_pos hx, ih, List.mem_cons]
      constructor
      · rintro ⟨ha, hs⟩
        exact ⟨Or.inr ha, hs⟩
      · rintro ⟨rfl | ha, hs⟩
        · exact (hs hxs).elim
        · exact ⟨ha, hs⟩
    · have hxs : x ∉ seen := by simpa using hx
      rw [if_neg hx, List.mem_cons, ih, List.mem_cons, List.mem_cons]
      constructor
      · rintro (rfl | ⟨ha, hs⟩)
        · exact ⟨Or.inl rfl, hxs⟩
        · exact ⟨Or.inr ha, fun h => hs (Or.inr h)⟩
      · rintro ⟨rfl | ha, hs⟩
        · exact Or.inl rfl
        · by_cases hax : a = x
          · exact Or.inl hax
          · exact Or.inr ⟨ha, fun h => h.elim hax hs⟩

lemma nodup_fresh (seen l : List α) : (fresh seen l).Nodup := by
  induction l generalizing seen with
  | nil => simp [fresh]
  | cons x l ih =>
    rw [fresh]
    split
    · exact ih seen
    · refine List.nodup_cons.2 ⟨?_, ih _⟩
      rw [mem_fresh]
      exact fun h => h.2 List.mem_cons_self

lemma nodup_append_fresh {seen : List α} (hseen : seen.Nodup) (l : List α) :
    (seen ++ fresh seen l).Nodup := by
  refine List.nodup_append'.2 ⟨hseen, nodup_fresh seen l, ?_⟩
  intro a ha hf
  exact (mem_fresh.1 hf).2 ha

/-! ## The closure -/

omit [LawfulBEq α] in
lemma subset_closure (next : α → List α) (bound : ℕ) (seen : List α) :
    seen ⊆ closure next bound seen := by
  induction bound generalizing seen with
  | zero => exact fun _ h => h
  | succ bound ih =>
    rw [closure]
    split
    · exact fun _ h => h
    · exact fun _ h => ih _ (List.mem_append_left _ h)

/-- Whatever the search finds is reached from where it started. -/
lemma closure_sound {next : α → List α} {bound : ℕ} {seen : List α} {b : α}
    (hb : b ∈ closure next bound seen) : ∃ a ∈ seen, ReflTransGen (Step next) a b := by
  induction bound generalizing seen with
  | zero => exact ⟨b, hb, .refl⟩
  | succ bound ih =>
    rw [closure] at hb
    split at hb
    · exact ⟨b, hb, .refl⟩
    · obtain ⟨a, ha, hab⟩ := ih hb
      rcases List.mem_append.1 ha with ha | ha
      · exact ⟨a, ha, hab⟩
      · -- `a` was added in this round, as the successor of a node that was there
        obtain ⟨s, hs, hsa⟩ := List.mem_flatMap.1 (mem_fresh.1 ha).1
        exact ⟨s, hs, .head hsa hab⟩

/-- With a bound that covers the nodes not yet seen, the search ends in a closed set. -/
lemma closure_closed {next : α → List α} {nodes : List α}
    (hnodes : ∀ a ∈ nodes, next a ⊆ nodes) {bound : ℕ} {seen : List α}
    (hseen : seen ⊆ nodes) (hnodup : seen.Nodup)
    (hbound : nodes.length ≤ bound + seen.length) {a b : α}
    (ha : a ∈ closure next bound seen) (hab : Step next a b) : b ∈ closure next bound seen := by
  induction bound generalizing seen with
  | zero =>
    -- no round is left, so `seen` already has as many elements as there are nodes
    have hsub : List.Subperm seen nodes := hnodup.subperm hseen
    have hperm : seen.Perm nodes := hsub.perm_of_length_le (by omega)
    rw [closure] at ha ⊢
    exact hperm.mem_iff.2 (hnodes a (hperm.mem_iff.1 ha) hab)
  | succ bound ih =>
    rw [closure] at ha ⊢
    split at ha <;> rename_i hmore
    · rw [if_pos hmore]
      by_contra hb
      have hfresh : b ∈ fresh seen (seen.flatMap next) :=
        mem_fresh.2 ⟨List.mem_flatMap.2 ⟨a, ha, hab⟩, hb⟩
      rw [List.isEmpty_iff.1 hmore] at hfresh
      exact List.not_mem_nil hfresh
    · rw [if_neg hmore]
      have hpos : 0 < (fresh seen (seen.flatMap next)).length := by
        rw [List.length_pos_iff]
        simpa using hmore
      refine ih ?_ (nodup_append_fresh hnodup _) ?_ ha
      · intro x hx
        rcases List.mem_append.1 hx with hx | hx
        · exact hseen hx
        · obtain ⟨s, hs, hsx⟩ := List.mem_flatMap.1 (mem_fresh.1 hx).1
          exact hnodes s (hseen hs) hsx
      · rw [List.length_append]
        omega

/-! ## Reachability in one or more steps -/

/-- The search finds exactly what is reached in one or more steps, if the bound is at least the
number of nodes. -/
theorem mem_reach_iff {next : α → List α} {nodes : List α}
    (hnodes : ∀ a ∈ nodes, next a ⊆ nodes) {bound : ℕ}
    (hbound : nodes.length ≤ bound) {a : α} (ha : next a ⊆ nodes) {b : α} :
    b ∈ reach next bound a ↔ TransGen (Step next) a b := by
  have hstart : ∀ x, x ∈ fresh [] (next a) ↔ Step next a x := by
    intro x
    simp [Step]
  constructor
  · intro hb
    obtain ⟨s, hs, hsb⟩ := closure_sound hb
    exact TransGen.head' ((hstart s).1 hs) hsb
  · intro hab
    induction hab with
    | single h => exact subset_closure next bound _ ((hstart _).2 h)
    | tail _ h ih =>
      refine closure_closed hnodes ?_ (nodup_fresh _ _) (by omega) ih h
      exact fun x hx => ha ((hstart x).1 hx)

theorem reaches_iff {next : α → List α} {nodes : List α}
    (hnodes : ∀ a ∈ nodes, next a ⊆ nodes) {bound : ℕ}
    (hbound : nodes.length ≤ bound) {a : α} (ha : next a ⊆ nodes) {b : α} :
    reaches next bound a b = true ↔ TransGen (Step next) a b := by
  rw [reaches, List.contains_iff_mem, mem_reach_iff hnodes hbound ha]

end WireContract.Graph
