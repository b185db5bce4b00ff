import Mathlib.Data.List.Chain
import Mathlib.Data.Nat.Lattice
import WireContract.Proofs.Reachability

/-!
# Shortest walks back to the start

`Graph.closingWalk?` searches breadth first: it takes nodes from a queue until one can step back to
the start, remembers where each node was found from, and then goes back along these origins.  If a
walk leads from the start back to it, the search finds one, no origin is missing on the way back,
and no other walk back is shorter (`exists_closingWalk`).

The measure of the argument is the distance from the start, the least number of steps of a walk.
`Search` says what holds between two rounds.  The nodes seen are those taken from the queue and
those still in it, the queue is in order of distance, and the origin of a node is one step nearer.
From this follows that everything nearer than the head of the queue has been taken from it: so the
nodes that a round adds are one step farther than its node, and the first node that steps back is a
nearest one.
-/

namespace WireContract.Graph

open Relation

/-! ## Distance -/

variable {α : Type}

/-- Some walk from the start to the node has so many steps. -/
inductive WalkTo (next : α → List α) (start : α) : ℕ → α → Prop where
  | refl : WalkTo next start 0 start
  | tail {n : ℕ} {a b : α} (ha : WalkTo next start n a) (hab : Step next a b) :
      WalkTo next start (n + 1) b

/-- The least number of steps of a walk from the start to a node. -/
noncomputable def distance (next : α → List α) (start a : α) : ℕ :=
  sInf {n | WalkTo next start n a}

variable {next : α → List α} {start a b : α} {n : ℕ}

lemma distance_le (h : WalkTo next start n a) : distance next start a ≤ n :=
  Nat.sInf_le h

lemma WalkTo.distance (h : WalkTo next start n a) :
    WalkTo next start (distance next start a) a :=
  Nat.sInf_mem (s := {n | WalkTo next start n a}) ⟨n, h⟩

lemma distance_start : distance next start start = 0 :=
  Nat.le_zero.1 (distance_le .refl)

lemma WalkTo.distance_step (h : WalkTo next start n a) (hab : Step next a b) :
    Graph.distance next start b ≤ Graph.distance next start a + 1 :=
  distance_le (.tail h.distance hab)

/-- A node other than the start is stepped to from one that is one step nearer. -/
lemma WalkTo.exists_nearer (h : WalkTo next start n a) (hne : a ≠ start) :
    ∃ p m, WalkTo next start m p ∧ Step next p a ∧
      Graph.distance next start a = Graph.distance next start p + 1 := by
  have hleast := h.distance
  generalize hd : Graph.distance next start a = d at hleast
  cases hleast with
  | refl => exact (hne rfl).elim
  | @tail m p _ hp hpa =>
    have hle := distance_le hp
    have hge := hp.distance_step hpa
    exact ⟨p, m, hp, hpa, by omega⟩

lemma exists_walkTo (h : ReflTransGen (Step next) start a) : ∃ n, WalkTo next start n a := by
  induction h with
  | refl => exact ⟨0, .refl⟩
  | tail _ hab ih =>
    obtain ⟨n, hn⟩ := ih
    exact ⟨n + 1, .tail hn hab⟩

/-- A list of nodes along which one can step is a walk. -/
lemma WalkTo.append_chain (h : WalkTo next start n a) {l : List α}
    (hl : (a :: (l ++ [b])).IsChain (Step next)) :
    ∃ p, WalkTo next start (n + l.length) p ∧ Step next p b := by
  induction l generalizing n a with
  | nil => exact ⟨a, h, by simpa using hl⟩
  | cons c l ih =>
    rw [List.cons_append, List.isChain_cons_cons] at hl
    obtain ⟨p, hp, hpb⟩ := ih (.tail h hl.1) hl.2
    refine ⟨p, ?_, hpb⟩
    rwa [List.length_cons, Nat.add_comm l.length, ← Nat.add_assoc]

/-! ## What the search keeps -/

/-- What holds between two rounds of the search, where `taken` are the nodes that were at the head
of the queue. -/
structure Search (next : α → List α) (start : α) (taken queue : List α)
    (origins : List (α × α)) : Prop where
  /-- Nodes are seen in the order in which they are taken. -/
  seen : start :: origins.map Prod.fst = taken ++ queue
  nodup : (taken ++ queue).Nodup
  reached : ∀ a ∈ taken ++ queue, ∃ n, WalkTo next start n a
  /-- A node is one step farther than the one it was found from. -/
  origin : ∀ a b, (a, b) ∈ origins → b ∈ taken ∧ Step next b a ∧
    distance next start a = distance next start b + 1
  /-- The queue is in order of distance. -/
  ordered : queue.Pairwise fun a b => distance next start a ≤ distance next start b
  /-- Distances in the queue differ by one step at most. -/
  level : ∀ a ∈ queue, ∀ b ∈ queue, distance next start b ≤ distance next start a + 1
  /-- A node that was taken has had its successors seen, and the start is none of them. -/
  closed : ∀ a ∈ taken, ∀ b, Step next a b → b ∈ taken ++ queue ∧ b ≠ start

namespace Search

variable {taken queue : List α} {origins : List (α × α)} {node : α}

lemma init (next : α → List α) (start : α) : Search next start [] [start] [] where
  seen := rfl
  nodup := List.nodup_singleton start
  reached := by
    intro a ha
    obtain rfl := List.mem_singleton.1 ha
    exact ⟨0, .refl⟩
  origin := fun a b h => (List.not_mem_nil h).elim
  ordered := List.pairwise_singleton _ _
  level := by
    intro a ha b hb
    obtain rfl := List.mem_singleton.1 ha
    obtain rfl := List.mem_singleton.1 hb
    omega
  closed := fun a h => (List.not_mem_nil h).elim

lemma start_mem (h : Search next start taken queue origins) : start ∈ taken ++ queue := by
  rw [← h.seen]
  exact List.mem_cons_self

/-- No node of the queue is nearer than its head. -/
lemma distance_head_le (h : Search next start taken (node :: queue) origins)
    (ha : a ∈ node :: queue) : distance next start node ≤ distance next start a := by
  rcases List.mem_cons.1 ha with rfl | ha
  · exact Nat.le_refl _
  · exact List.rel_of_pairwise_cons h.ordered ha

/-- Every node that is nearer than the head of the queue has been taken. -/
lemma mem_taken_of_nearer (h : Search next start taken (node :: queue) origins) {n : ℕ}
    (ha : WalkTo next start n a) (hnear : distance next start a < distance next start node) :
    a ∈ taken := by
  have hseen : a ∈ taken ++ node :: queue := by
    -- along a shortest walk: the node before is nearer still
    induction hd : distance next start a using Nat.strong_induction_on generalizing a n with
    | _ d ih =>
      by_cases hstart : a = start
      · rw [hstart]
        exact h.start_mem
      · obtain ⟨p, m, hp, hpa, hdist⟩ := ha.exists_nearer hstart
        have hpseen := ih (distance next start p) (by omega) hp (by omega) rfl
        have hptaken : p ∈ taken := by
          refine (List.mem_append.1 hpseen).resolve_right fun hqueue => ?_
          have hle := h.distance_head_le hqueue
          omega
        exact (h.closed p hptaken a hpa).1
  refine (List.mem_append.1 hseen).resolve_right fun hqueue => ?_
  have hle := h.distance_head_le hqueue
  omega

end Search

/-! ## The way back -/

/-- A list of nodes from a node back to the start, each followed by one that steps to it and is one
step nearer. -/
inductive LeadsBack (next : α → List α) (start : α) : α → List α → Prop where
  | start : LeadsBack next start start [start]
  | step {a b : α} {back : List α} (hba : Step next b a)
      (hdist : distance next start a = distance next start b + 1)
      (hb : LeadsBack next start b back) : LeadsBack next start a (a :: back)

namespace LeadsBack

variable {back : List α}

lemma length_eq (h : LeadsBack next start a back) :
    back.length = distance next start a + 1 := by
  induction h with
  | start => rw [distance_start, List.length_singleton]
  | step _ hdist _ ih => rw [List.length_cons, ih, hdist]

lemma head? (h : LeadsBack next start a back) : back.head? = some a := by
  cases h <;> rfl

lemma distance_le (h : LeadsBack next start a back) :
    ∀ b ∈ back, distance next start b ≤ distance next start a := by
  induction h with
  | start =>
    intro b hb
    rw [List.mem_singleton.1 hb]
  | step _ hdist _ ih =>
    refine List.forall_mem_cons.2 ⟨Nat.le_refl _, fun b hb => ?_⟩
    have hle := ih b hb
    omega

lemma nodup (h : LeadsBack next start a back) : back.Nodup := by
  induction h with
  | start => exact List.nodup_singleton start
  | step _ hdist hb ih =>
    refine List.nodup_cons.2 ⟨fun hmem => ?_, ih⟩
    have hle := hb.distance_le _ hmem
    omega

lemma isChain (h : LeadsBack next start a back) : back.IsChain fun a b => Step next b a := by
  induction h with
  | start => exact List.isChain_singleton start
  | step hba _ hb ih =>
    refine List.isChain_cons.2 ⟨fun c hc => ?_, ih⟩
    rw [hb.head?] at hc
    obtain rfl := Option.some.inj hc
    exact hba

/-- Read from the start, the list begins with it. -/
lemma reverse_eq (h : LeadsBack next start a back) : ∃ rest, back.reverse = start :: rest := by
  induction h with
  | start => exact ⟨[], rfl⟩
  | @step a _ _ _ _ _ ih =>
    obtain ⟨rest, hrest⟩ := ih
    exact ⟨rest ++ [a], by rw [List.reverse_cons, hrest, List.cons_append]⟩

end LeadsBack

/-! ## The rounds -/

section Rounds

variable [BEq α] [LawfulBEq α]

namespace Search

variable {taken queue : List α} {origins : List (α × α)} {node : α}

/-- The nodes that a round adds are one step farther than its node. -/
lemma distance_fresh (h : Search next start taken (node :: queue) origins)
    (ha : a ∈ fresh (start :: origins.map (·.1)) (next node)) :
    distance next start a = distance next start node + 1 := by
  obtain ⟨hstep, hnew⟩ := mem_fresh.1 ha
  rw [h.seen] at hnew
  obtain ⟨n, hn⟩ := h.reached node (by simp)
  have hle := hn.distance_step hstep
  by_contra hne
  have hstart : a ≠ start := fun heq => hnew (heq ▸ h.start_mem)
  obtain ⟨p, m, hp, hpa, hdist⟩ := (WalkTo.tail hn hstep).exists_nearer hstart
  have hptaken := h.mem_taken_of_nearer hp (by omega)
  exact hnew (h.closed p hptaken a hpa).1

/-- One round of the search. -/
lemma step (h : Search next start taken (node :: queue) origins) (hopen : start ∉ next node) :
    let more := fresh (start :: origins.map (·.1)) (next node)
    Search next start (taken ++ [node]) (queue ++ more) (origins ++ more.map (·, node)) := by
  intro more
  have hmore : ∀ a ∈ more, distance next start a = distance next start node + 1 :=
    fun a ha => h.distance_fresh ha
  have hall : taken ++ [node] ++ (queue ++ more) = taken ++ node :: queue ++ more := by simp
  have hnode : node ∈ taken ++ node :: queue := by simp
  have hhead : ∀ a ∈ queue, distance next start node ≤ distance next start a :=
    fun a ha => h.distance_head_le (List.mem_cons_of_mem _ ha)
  have hlevel : ∀ a ∈ queue, distance next start a ≤ distance next start node + 1 :=
    fun a ha => h.level node List.mem_cons_self a (List.mem_cons_of_mem _ ha)
  refine ⟨?_, ?_, fun a ha => ?_, fun a b hab => ?_, ?_, fun a ha b hb => ?_, fun a ha b hab => ?_⟩
  · rw [hall, ← h.seen]
    simp [Function.comp_def]
  · rw [hall, ← h.seen]
    exact nodup_append_fresh (h.seen ▸ h.nodup) _
  · rw [hall] at ha
    rcases List.mem_append.1 ha with ha | ha
    · exact h.reached a ha
    · obtain ⟨n, hn⟩ := h.reached node hnode
      exact ⟨n + 1, .tail hn (mem_fresh.1 ha).1⟩
  · rcases List.mem_append.1 hab with hab | hab
    · obtain ⟨hb, hrest⟩ := h.origin a b hab
      exact ⟨List.mem_append_left _ hb, hrest⟩
    · obtain ⟨c, hc, heq⟩ := List.mem_map.1 hab
      obtain ⟨rfl, rfl⟩ := Prod.mk.inj heq
      exact ⟨by simp, (mem_fresh.1 hc).1, hmore c hc⟩
  · refine List.pairwise_append.2 ⟨(List.pairwise_cons.1 h.ordered).2, ?_, fun a ha b hb => ?_⟩
    · refine List.pairwise_of_forall_mem_list fun a ha b hb => ?_
      rw [hmore a ha, hmore b hb]
    · rw [hmore b hb]
      exact hlevel a ha
  · have hge : distance next start node ≤ distance next start a := by
      rcases List.mem_append.1 ha with ha | ha
      · exact hhead a ha
      · rw [hmore a ha]
        omega
    have hle : distance next start b ≤ distance next start node + 1 := by
      rcases List.mem_append.1 hb with hb | hb
      · exact hlevel b hb
      · exact (hmore b hb).le
    omega
  · rw [hall]
    rcases List.mem_append.1 ha with ha | ha
    · obtain ⟨hb, hne⟩ := h.closed a ha b hab
      exact ⟨List.mem_append_left _ hb, hne⟩
    · obtain rfl := List.mem_singleton.1 ha
      refine ⟨?_, fun heq => hopen (heq ▸ hab)⟩
      by_cases hb : b ∈ taken ++ a :: queue
      · exact List.mem_append_left _ hb
      · refine List.mem_append_right _ (mem_fresh.2 ⟨hab, ?_⟩)
        rw [h.seen]
        exact hb

/-- If a walk leads back to the start, the search comes to a node that steps back, in no more rounds
than there are nodes. -/
lemma exists_closingNode {nodes : List α} (hnodes : ∀ a ∈ nodes, next a ⊆ nodes) {last : α}
    {n bound : ℕ} (hlast : WalkTo next start n last) (hback : start ∈ next last)
    (h : Search next start taken queue origins) (hsub : taken ++ queue ⊆ nodes)
    (hbound : nodes.length < bound + taken.length) :
    ∃ node origins' taken' queue', closingNode? next start bound queue origins =
        some (node, origins') ∧ start ∈ next node ∧
      Search next start taken' (node :: queue') origins' ∧ taken' ++ node :: queue' ⊆ nodes := by
  induction bound generalizing taken queue origins with
  | zero =>
    have hle := (h.nodup.subperm hsub).length_le
    rw [List.length_append] at hle
    omega
  | succ bound ih =>
    cases queue with
    | nil =>
      -- all that is reached has been taken, and nothing that was taken steps back
      have htaken : last ∈ taken := by
        clear hback
        induction hlast with
        | refl => simpa using h.start_mem
        | tail _ hab ihl => simpa using (h.closed _ ihl _ hab).1
      exact ((h.closed last htaken start hback).2 rfl).elim
    | cons node queue =>
      rw [closingNode?]
      by_cases hclose : start ∈ next node
      · rw [if_pos (by simpa using hclose)]
        exact ⟨node, origins, taken, queue, rfl, hclose, h, hsub⟩
      · rw [if_neg (by simpa using hclose)]
        refine ih (h.step hclose) ?_ ?_
        · intro a ha
          rw [List.append_assoc, List.mem_append, List.mem_append, List.mem_append] at ha
          rcases ha with ha | ha | ha | ha
          · exact hsub (List.mem_append_left _ ha)
          · obtain rfl := List.mem_singleton.1 ha
            exact hsub (by simp)
          · exact hsub (by simp [ha])
          · exact hnodes node (hsub (by simp)) (mem_fresh.1 ha).1
        · rw [List.length_append, List.length_singleton]
          omega

/-- No origin is missing on the way back from a node that was seen. -/
lemma exists_walkBack (h : Search next start taken queue origins) (ha : a ∈ taken ++ queue)
    {bound : ℕ} (hbound : distance next start a < bound) :
    ∃ back, walkBack? origins start bound a = some back ∧ LeadsBack next start a back ∧
      back ⊆ taken ++ queue := by
  induction bound generalizing a with
  | zero => omega
  | succ bound ih =>
    rw [walkBack?]
    by_cases hstart : a = start
    · rw [if_pos (by simpa using hstart), hstart]
      exact ⟨[start], rfl, .start, List.cons_subset.2 ⟨h.start_mem, List.nil_subset _⟩⟩
    · rw [if_neg (by simpa using hstart)]
      have hkey : ∃ p ∈ origins, p.1 = a := by
        have hmem : a ∈ start :: origins.map Prod.fst := h.seen ▸ ha
        exact List.mem_map.1 ((List.mem_cons.1 hmem).resolve_left hstart)
      obtain ⟨p, hp, hpa⟩ := hkey
      obtain ⟨b, hb⟩ : ∃ b, origins.lookup a = some b :=
        Option.isSome_iff_exists.1 (List.lookup_isSome_iff.2 ⟨p, hp, by simp [hpa]⟩)
      have hmem : (a, b) ∈ origins := by
        obtain ⟨before, after, horigins, -⟩ := List.lookup_eq_some_iff.1 hb
        rw [horigins]
        simp
      obtain ⟨htaken, hba, hdist⟩ := h.origin a b hmem
      obtain ⟨back, hback, hleads, hsub⟩ := ih (List.mem_append_left _ htaken) (by omega)
      refine ⟨a :: back, ?_, .step hba hdist hleads, List.cons_subset.2 ⟨ha, hsub⟩⟩
      rw [hb]
      simp [hback]

end Search

/-! ## The closing walk -/

/-- If a walk leads from the start back to it, the search finds one: through distinct nodes, and no
other has fewer steps.  The bound has to be at least the number of nodes. -/
theorem exists_closingWalk {nodes : List α} (hnodes : ∀ a ∈ nodes, next a ⊆ nodes)
    (hstart : start ∈ nodes) {bound : ℕ} (hbound : nodes.length ≤ bound)
    (hcycle : TransGen (Step next) start start) :
    ∃ rest, closingWalk? next bound start = some (start :: (rest ++ [start])) ∧
      (start :: rest).Nodup ∧ start :: rest ⊆ nodes ∧
      (start :: (rest ++ [start])).IsChain (Step next) ∧
      ∀ other, (start :: (other ++ [start])).IsChain (Step next) →
        rest.length ≤ other.length := by
  obtain ⟨p, hp, hback⟩ := TransGen.tail'_iff.1 hcycle
  obtain ⟨n, hn⟩ := exists_walkTo hp
  obtain ⟨last, origins, taken, queue, hfound, hclose, hsearch, hsub⟩ :=
    Search.exists_closingNode hnodes hn hback (.init next start)
      (List.cons_subset.2 ⟨hstart, List.nil_subset _⟩) (show nodes.length < bound + 1 + 0 by omega)
  have hmem : last ∈ taken ++ last :: queue := by simp
  -- the way back has no more nodes than there are, so the bound does not cut it off
  have hdist : distance next start last < bound + 1 := by
    obtain ⟨back, -, hleads, hseen⟩ := hsearch.exists_walkBack hmem (Nat.lt_succ_self _)
    have hle := (hleads.nodup.subperm (List.Subset.trans hseen hsub)).length_le
    rw [hleads.length_eq] at hle
    omega
  obtain ⟨back, hwalk, hleads, hseen⟩ := hsearch.exists_walkBack hmem hdist
  obtain ⟨rest, hrest⟩ := hleads.reverse_eq
  have hlength : (start :: rest).length = distance next start last + 1 := by
    rw [← hrest, List.length_reverse, hleads.length_eq]
  have hwhole : start :: (rest ++ [start]) = (start :: back).reverse := by
    rw [List.reverse_cons, hrest, List.cons_append]
  refine ⟨rest, ?_, ?_, ?_, ?_, fun other hother => ?_⟩
  · rw [closingWalk?, hfound]
    simp [hwalk, hrest]
  · rw [← hrest]
    exact List.nodup_reverse.2 hleads.nodup
  · rw [← hrest]
    exact fun a ha => hsub (hseen (List.mem_reverse.1 ha))
  · rw [hwhole, List.isChain_reverse]
    refine List.isChain_cons.2 ⟨fun a ha => ?_, hleads.isChain⟩
    rw [hleads.head?] at ha
    obtain rfl := Option.some.inj ha
    exact hclose
  · -- a shorter walk would step back from a nearer node, which has been taken
    obtain ⟨q, hq, hqback⟩ := WalkTo.refl.append_chain hother
    have hle := distance_le hq
    by_contra hshort
    rw [List.length_cons] at hlength
    have htaken := hsearch.mem_taken_of_nearer hq (by omega)
    exact (hsearch.closed q htaken start hqback).2 rfl

end Rounds

end WireContract.Graph
