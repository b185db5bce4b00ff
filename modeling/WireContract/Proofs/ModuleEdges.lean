import Mathlib.Data.List.Nodup
import Mathlib.Data.List.Pairwise
import Mathlib.Data.Prod.Lex
import Mathlib.Data.String.Basic
import Mathlib.Tactic.Common
import WireContract.Schema.ModuleGraph

/-!
# Modules by number and the edges between them

A graph of modules has names and numbers for its modules, and edges between numbers that keep
mentions between names.  `IsLinked` says how these belong together, and both ways of extending a
graph keep it (`IsLinked.addModule`, `IsLinked.addMention`).  In a linked graph what is found by
numbers can be said by names alone: the dependencies of a module (`IsLinked.mem_dependencies_iff`)
and the mentions behind one (`IsLinked.mem_mentionsBetween_iff`).

What recording a mention does to the edges is said once, by `recordMention_cases`.
-/

namespace WireContract.Schema

/-! ## The order of mentions -/

namespace QualifiedName

/-- The texts by which names are compared, one after the other. -/
def key (q : QualifiedName) : String ×ₗ String :=
  toLex (q.module, q.name)

lemma key_injective : Function.Injective key := by
  intro a b h
  obtain ⟨hmodule, hname⟩ := Prod.mk.inj (toLex_inj.1 h)
  cases a
  cases b
  simp_all

lemma le_iff_key {a b : QualifiedName} : a.le b = true ↔ a.key ≤ b.key := by
  rw [le, key, key, Prod.Lex.toLex_le_toLex]
  by_cases h : a.module = b.module
  · simp [h]
  · simp [h, lt_iff_le_and_ne]

end QualifiedName

/-- The texts by which mentions are compared: those of the name that mentions, then those of the
mentioned one. -/
def mentionKey (p : QualifiedName × QualifiedName) : (String ×ₗ String) ×ₗ (String ×ₗ String) :=
  toLex (p.1.key, p.2.key)

lemma mentionKey_injective : Function.Injective mentionKey := by
  intro p p' h
  obtain ⟨hsource, htarget⟩ := Prod.mk.inj (toLex_inj.1 h)
  exact Prod.ext (QualifiedName.key_injective hsource) (QualifiedName.key_injective htarget)

lemma mentionLe_iff {p p' : QualifiedName × QualifiedName} :
    mentionLe p p' = true ↔ mentionKey p ≤ mentionKey p' := by
  rw [mentionLe, mentionKey, mentionKey, Prod.Lex.toLex_le_toLex]
  by_cases h : p.1 = p'.1
  · simp [h, QualifiedName.le_iff_key]
  · have hkey : p.1.key ≠ p'.1.key := fun heq => h (QualifiedName.key_injective heq)
    simp [h, hkey, QualifiedName.le_iff_key, lt_iff_le_and_ne]

/-! ## Mentions of an edge -/

@[simp] lemma mem_insertMention {p q : QualifiedName × QualifiedName}
    {mentions : List (QualifiedName × QualifiedName)} :
    q ∈ insertMention p mentions ↔ q = p ∨ q ∈ mentions := by
  induction mentions with
  | nil => simp [insertMention]
  | cons r mentions ih =>
    rw [insertMention]
    by_cases hsame : p = r
    · rw [if_pos hsame, hsame]
      simp
    · rw [if_neg hsame]
      by_cases hle : mentionLe p r = true
      · rw [if_pos hle, List.mem_cons]
      · rw [if_neg hle, List.mem_cons, ih, List.mem_cons, or_left_comm]

/-- The mentions are in order, each of them once. -/
def MentionsSorted (mentions : List (QualifiedName × QualifiedName)) : Prop :=
  mentions.Pairwise fun p p' => mentionKey p < mentionKey p'

lemma MentionsSorted.insertMention {mentions : List (QualifiedName × QualifiedName)}
    (h : MentionsSorted mentions) (p : QualifiedName × QualifiedName) :
    MentionsSorted (insertMention p mentions) := by
  induction mentions with
  | nil => exact List.pairwise_singleton _ _
  | cons q mentions ih =>
    obtain ⟨hq, hmentions⟩ := List.pairwise_cons.1 h
    rw [Schema.insertMention]
    by_cases hsame : p = q
    · rwa [if_pos hsame]
    · rw [if_neg hsame]
      have hkey : mentionKey p ≠ mentionKey q := fun heq => hsame (mentionKey_injective heq)
      by_cases hle : mentionLe p q = true
      · have hlt : mentionKey p < mentionKey q := lt_of_le_of_ne (mentionLe_iff.1 hle) hkey
        rw [if_pos hle]
        refine List.pairwise_cons.2 ⟨List.forall_mem_cons.2 ⟨hlt, fun r hr => ?_⟩, h⟩
        exact hlt.trans (hq r hr)
      · have hlt : mentionKey q < mentionKey p := lt_of_not_ge fun hge => hle (mentionLe_iff.2 hge)
        rw [if_neg hle]
        refine List.pairwise_cons.2 ⟨fun r hr => ?_, ih hmentions⟩
        rcases mem_insertMention.1 hr with rfl | hr
        · exact hlt
        · exact hq r hr

namespace ModuleEdge

/-- The numbers of the modules that an edge joins. -/
def ends (e : ModuleEdge) : ℕ × ℕ := (e.source, e.target)

lemma joins_iff {e : ModuleEdge} {i j : ℕ} :
    e.joins i j = true ↔ e.ends = (i, j) := by
  rw [joins, Bool.and_eq_true, beq_iff_eq, beq_iff_eq, ends, Prod.mk.injEq]

/-- The edge leads from one module to another, and has mentions of declarations of the second by
declarations of the first, in order. -/
structure IsSound (modules : List String) (e : ModuleEdge) : Prop where
  loopless : e.source ≠ e.target
  behind : e.mentions ≠ []
  sorted : MentionsSorted e.mentions
  leads : ∀ p ∈ e.mentions,
    modules[e.source]? = some p.1.module ∧ modules[e.target]? = some p.2.module

/-- Another mention between the same modules can be added. -/
lemma IsSound.insertMention {modules : List String} {e : ModuleEdge} (h : e.IsSound modules)
    {p : QualifiedName × QualifiedName} (hsource : modules[e.source]? = some p.1.module)
    (htarget : modules[e.target]? = some p.2.module) :
    IsSound modules { e with mentions := insertMention p e.mentions } := by
  refine ⟨h.loopless, List.ne_nil_of_mem (mem_insertMention.2 (.inl rfl)),
    h.sorted.insertMention p, fun q hq => ?_⟩
  rcases mem_insertMention.1 hq with rfl | hq
  · exact ⟨hsource, htarget⟩
  · exact h.leads q hq

end ModuleEdge

namespace ModuleGraph

/-- Recording a mention either adds it to an edge that is there or makes an edge for it. -/
lemma recordMention_cases (i j : ℕ) (p : QualifiedName × QualifiedName) (es : List ModuleEdge) :
    (∃ before e after, es = before ++ e :: after ∧ e.ends = (i, j) ∧
      recordMention i j p es =
        before ++ { e with mentions := insertMention p e.mentions } :: after) ∨
    ((i, j) ∉ es.map ModuleEdge.ends ∧ recordMention i j p es = es ++ [⟨i, j, [p]⟩]) := by
  induction es with
  | nil => exact .inr ⟨List.not_mem_nil, rfl⟩
  | cons e es ih =>
    rw [recordMention]
    by_cases hjoins : e.joins i j = true
    · rw [if_pos hjoins]
      exact .inl ⟨[], e, es, rfl, ModuleEdge.joins_iff.1 hjoins, rfl⟩
    · have hends : (i, j) ≠ e.ends := fun h => hjoins (ModuleEdge.joins_iff.2 h.symm)
      rw [if_neg hjoins]
      rcases ih with ⟨before, e', after, rfl, hends', heq⟩ | ⟨hnone, heq⟩
      · exact .inl ⟨e :: before, e', after, rfl, hends', by rw [heq]; rfl⟩
      · exact .inr ⟨List.not_mem_cons_of_ne_of_not_mem hends hnone, by rw [heq]; rfl⟩

lemma mem_mentions_recordMention {i j : ℕ} {p q : QualifiedName × QualifiedName}
    {es : List ModuleEdge} :
    q ∈ (recordMention i j p es).flatMap (·.mentions) ↔ q ∈ es.flatMap (·.mentions) ∨ q = p := by
  rcases recordMention_cases i j p es with ⟨before, e, after, rfl, -, heq⟩ | ⟨-, heq⟩
  · rw [heq]
    simp only [List.flatMap_append, List.flatMap_cons, List.mem_append, mem_insertMention]
    tauto
  · rw [heq, List.flatMap_append, List.mem_append, List.flatMap_singleton, List.mem_singleton]

/-- The recorded mentions. -/
def mentions (g : ModuleGraph) : List (QualifiedName × QualifiedName) :=
  g.edges.flatMap (·.mentions)

variable {g : ModuleGraph}

lemma mem_mentions_iff {p : QualifiedName × QualifiedName} :
    p ∈ g.mentions ↔ ∃ e ∈ g.edges, p ∈ e.mentions :=
  List.mem_flatMap

@[simp] lemma edges_addModule (m : String) : (g.addModule m).1.edges = g.edges := by
  rw [addModule]
  split <;> rfl

/-- Recording a mention, step by step: both modules are added, then the mention. -/
lemma addMention_of_ne {source target : QualifiedName} (h : source.module ≠ target.module) :
    g.addMention source target =
      { ((g.addModule source.module).1.addModule target.module).1 with
        edges := recordMention (g.addModule source.module).2
          ((g.addModule source.module).1.addModule target.module).2 (source, target) g.edges } := by
  rw [addMention, if_neg (by simpa using h)]
  simp only [edges_addModule]

lemma addMention_of_eq {source target : QualifiedName} (h : source.module = target.module) :
    g.addMention source target = g := by
  rw [addMention, if_pos (by simpa using h)]

@[simp] lemma mentions_insertModule (m : String) : (g.insertModule m).mentions = g.mentions := by
  rw [mentions, insertModule, edges_addModule, mentions]

/-- A mention is recorded if it leads to another module. -/
lemma mem_mentions_addMention {source target : QualifiedName} {p : QualifiedName × QualifiedName} :
    p ∈ (g.addMention source target).mentions ↔
      p ∈ g.mentions ∨ p = (source, target) ∧ p.1.module ≠ p.2.module := by
  by_cases hsame : source.module = target.module
  · rw [addMention_of_eq hsame, or_iff_left]
    rintro ⟨rfl, hne⟩
    exact hne hsame
  · have hpair : p = (source, target) ∧ p.1.module ≠ p.2.module ↔ p = (source, target) := by
      refine and_iff_left_of_imp ?_
      rintro rfl
      exact hsame
    rw [addMention_of_ne hsame, hpair]
    exact mem_mentions_recordMention

/-! ## Linked graphs -/

lemma getElem?_concat_iff {modules : List String} {m n : String} {i : ℕ} :
    (modules ++ [m])[i]? = some n ↔ modules[i]? = some n ∨ i = modules.length ∧ m = n := by
  rw [List.getElem?_append]
  by_cases hi : i < modules.length
  · rw [if_pos hi, or_iff_left fun hlast => Nat.ne_of_lt hi hlast.1]
  · rw [if_neg hi, List.getElem?_eq_none (Nat.le_of_not_lt hi), List.getElem?_singleton]
    have hzero : i - modules.length = 0 ↔ i = modules.length := by omega
    simp [hzero]

/-- The modules are numbered: a name has a number exactly if it is the name of that module. -/
def IsNumbered (g : ModuleGraph) : Prop :=
  ∀ m i, g.index? m = some i ↔ g.modules[i]? = some m

/-- The modules are numbered, there is one edge between two modules at most, and every edge is
sound. -/
structure IsLinked (g : ModuleGraph) : Prop where
  numbered : g.IsNumbered
  single : (g.edges.map ModuleEdge.ends).Nodup
  sound : ∀ e ∈ g.edges, e.IsSound g.modules

lemma isLinked_empty : empty.IsLinked := by
  refine ⟨fun m i => ?_, List.nodup_nil, List.forall_mem_nil _⟩
  simp [index?, empty]

namespace IsNumbered

/-- A module has one number. -/
lemma number_eq (h : g.IsNumbered) {m : String} {i j : ℕ} (hi : g.modules[i]? = some m)
    (hj : g.modules[j]? = some m) : i = j :=
  Option.some.inj (((h m i).2 hi).symm.trans ((h m j).2 hj))

lemma nodup (h : g.IsNumbered) : g.modules.Nodup := by
  rw [List.nodup_iff_getElem?_ne_getElem?]
  intro i j hij hj hsame
  have hmodule := List.getElem?_eq_getElem hj
  have heq := h.number_eq (hsame.trans hmodule) hmodule
  omega

lemma index?_eq_none_iff (h : g.IsNumbered) {m : String} :
    g.index? m = none ↔ m ∉ g.modules := by
  rw [Option.eq_none_iff_forall_ne_some, List.mem_iff_getElem?, not_exists]
  exact forall_congr' fun i => not_congr (h m i)

/-- A module that is new gets the next number. -/
lemma modules_addModule (h : g.IsNumbered) (m : String) :
    (g.addModule m).1.modules = if m ∈ g.modules then g.modules else g.modules ++ [m] := by
  rw [addModule]
  cases hindex : g.index? m with
  | some i => rw [if_pos (List.mem_of_getElem? ((h m i).1 hindex))]
  | none => rw [if_neg (h.index?_eq_none_iff.1 hindex)]

lemma addModule (h : g.IsNumbered) (m : String) : (g.addModule m).1.IsNumbered := by
  rw [ModuleGraph.addModule]
  cases hindex : g.index? m with
  | some i => exact h
  | none =>
    have hnew := h.index?_eq_none_iff.1 hindex
    intro n i
    rw [index?, List.lookup_cons, getElem?_concat_iff]
    by_cases hn : n = m
    · subst hn
      have hother : g.modules[i]? ≠ some n := fun hsome => hnew (List.mem_of_getElem? hsome)
      simp [hother, eq_comm]
    · rw [beq_false_of_ne hn, or_iff_left fun hlast => hn hlast.2.symm]
      exact h n i

lemma getElem?_addModule (h : g.IsNumbered) (m : String) :
    (g.addModule m).1.modules[(g.addModule m).2]? = some m := by
  rw [ModuleGraph.addModule]
  cases hindex : g.index? m with
  | some i => exact (h m i).1 hindex
  | none => exact List.getElem?_concat_length

end IsNumbered

/-- The modules that are there keep their numbers. -/
lemma getElem?_addModule_of_some {m n : String} {i : ℕ} (h : g.modules[i]? = some n) :
    (g.addModule m).1.modules[i]? = some n := by
  rw [addModule]
  cases g.index? m with
  | some j => exact h
  | none => exact getElem?_concat_iff.2 (.inl h)

namespace IsLinked

/-- An edge is known by its ends. -/
lemma edge_eq (h : g.IsLinked) {e e' : ModuleEdge} (he : e ∈ g.edges) (he' : e' ∈ g.edges)
    (hends : e.ends = e'.ends) : e = e' :=
  List.inj_on_of_nodup_map h.single he he' hends

lemma addModule (h : g.IsLinked) (m : String) : (g.addModule m).1.IsLinked := by
  refine ⟨h.numbered.addModule m, ?_, ?_⟩
  · rw [edges_addModule]
    exact h.single
  · rw [edges_addModule]
    intro e he
    obtain ⟨hloopless, hbehind, hsorted, hleads⟩ := h.sound e he
    refine ⟨hloopless, hbehind, hsorted, fun p hp => ?_⟩
    obtain ⟨hsource, htarget⟩ := hleads p hp
    exact ⟨getElem?_addModule_of_some hsource, getElem?_addModule_of_some htarget⟩

/-- A mention between the modules of two numbers can be recorded. -/
lemma recordMention (h : g.IsLinked) {i j : ℕ} {source target : QualifiedName}
    (hi : g.modules[i]? = some source.module) (hj : g.modules[j]? = some target.module)
    (hne : source.module ≠ target.module) :
    { g with edges := recordMention i j (source, target) g.edges }.IsLinked := by
  rcases recordMention_cases i j (source, target) g.edges with
    ⟨before, e, after, hedges, hends, heq⟩ | ⟨hnone, heq⟩
  · obtain ⟨rfl, rfl⟩ := Prod.mk.inj hends
    obtain ⟨hnumbered, hsingle, hsound⟩ := h
    rw [hedges] at hsingle hsound
    obtain ⟨hbefore, hrest⟩ := List.forall_mem_append.1 hsound
    obtain ⟨he, hafter⟩ := List.forall_mem_cons.1 hrest
    refine ⟨hnumbered, ?_, ?_⟩
    · rw [heq]
      simpa [ModuleEdge.ends] using hsingle
    · rw [heq]
      exact List.forall_mem_append.2
        ⟨hbefore, List.forall_mem_cons.2 ⟨he.insertMention hi hj, hafter⟩⟩
  · have hnew : ModuleEdge.IsSound g.modules ⟨i, j, [(source, target)]⟩ := by
      refine ⟨fun hsame => ?_, List.cons_ne_nil _ _, List.pairwise_singleton _ _, fun p hp => ?_⟩
      · obtain rfl : i = j := hsame
        exact hne (Option.some.inj (hi.symm.trans hj))
      · rw [List.mem_singleton.1 hp]
        exact ⟨hi, hj⟩
    refine ⟨h.numbered, ?_, ?_⟩
    · rw [heq, List.map_append]
      exact h.single.append (List.nodup_singleton _) (List.disjoint_singleton.2 hnone)
    · rw [heq]
      exact List.forall_mem_append.2 ⟨h.sound, List.forall_mem_singleton.2 hnew⟩

lemma addMention (h : g.IsLinked) (source target : QualifiedName) :
    (g.addMention source target).IsLinked := by
  by_cases hsame : source.module = target.module
  · rwa [addMention_of_eq hsame]
  · rw [addMention_of_ne hsame]
    have hsource := h.addModule source.module
    have htarget := hsource.addModule target.module
    have hrecorded := htarget.recordMention
      (getElem?_addModule_of_some (h.numbered.getElem?_addModule source.module))
      (hsource.numbered.getElem?_addModule target.module) hsame
    simpa only [edges_addModule] using hrecorded

/-! ## Linked graphs by the names of their modules -/

/-- The modules of a mention have numbers, between which there is an edge with the mention. -/
lemma exists_edge (h : g.IsLinked) {p : QualifiedName × QualifiedName} (hp : p ∈ g.mentions) :
    ∃ e ∈ g.edges, p ∈ e.mentions ∧ g.index? p.1.module = some e.source ∧
      g.index? p.2.module = some e.target := by
  obtain ⟨e, he, hpe⟩ := mem_mentions_iff.1 hp
  obtain ⟨hsource, htarget⟩ := (h.sound e he).leads p hpe
  exact ⟨e, he, hpe, (h.numbered _ _).2 hsource, (h.numbered _ _).2 htarget⟩

/-- The modules of a mention differ, and are modules of the graph. -/
lemma ne_of_mem_mentions (h : g.IsLinked) {p : QualifiedName × QualifiedName}
    (hp : p ∈ g.mentions) :
    p.1.module ≠ p.2.module ∧ p.1.module ∈ g.modules ∧ p.2.module ∈ g.modules := by
  obtain ⟨e, he, hpe⟩ := mem_mentions_iff.1 hp
  obtain ⟨hsource, htarget⟩ := (h.sound e he).leads p hpe
  refine ⟨fun hsame => (h.sound e he).loopless ?_, List.mem_of_getElem? hsource,
    List.mem_of_getElem? htarget⟩
  exact h.numbered.number_eq hsource (hsame ▸ htarget)

/-- A module depends on another exactly if there is a mention from one to the other. -/
lemma mem_dependencies_iff (h : g.IsLinked) {a b : String} :
    b ∈ g.dependencies a ↔
      ∃ source target, (source, target) ∈ g.mentions ∧ source.module = a ∧ target.module = b := by
  rw [dependencies]
  constructor
  · intro hb
    cases hindex : g.index? a with
    | none => simp [hindex] at hb
    | some i =>
      rw [hindex] at hb
      obtain ⟨e, he, htarget⟩ := List.mem_filterMap.1 (List.mem_mergeSort.1 hb)
      obtain ⟨hedge, hsource⟩ := List.mem_filter.1 he
      obtain rfl : e.source = i := by simpa using hsource
      obtain ⟨p, hp⟩ := List.exists_mem_of_ne_nil _ (h.sound e hedge).behind
      obtain ⟨hsource', htarget'⟩ := (h.sound e hedge).leads p hp
      rw [(h.numbered a _).1 hindex] at hsource'
      rw [htarget] at htarget'
      exact ⟨p.1, p.2, mem_mentions_iff.2 ⟨e, hedge, hp⟩, (Option.some.inj hsource').symm,
        (Option.some.inj htarget').symm⟩
  · rintro ⟨source, target, hmem, rfl, rfl⟩
    obtain ⟨e, he, -, hsource, htarget⟩ := h.exists_edge hmem
    rw [hsource]
    refine List.mem_mergeSort.2 (List.mem_filterMap.2 ⟨e, ?_, (h.numbered _ _).1 htarget⟩)
    exact List.mem_filter.2 ⟨he, by simp⟩

/-- No module is listed twice among the dependencies of a module. -/
lemma nodup_dependencies (h : g.IsLinked) (a : String) : (g.dependencies a).Nodup := by
  rw [dependencies]
  cases g.index? a with
  | none => exact List.nodup_nil
  | some i =>
    have hsingle : g.edges.Pairwise fun e e' => e.ends ≠ e'.ends := List.pairwise_map.1 h.single
    have hapart : (g.edges.filter (·.source == i)).Pairwise fun e e' => e.target ≠ e'.target := by
      refine (hsingle.filter _).imp_of_mem fun {e e'} he he' hends htarget => hends ?_
      have hsource : e.source = i := by simpa using (List.mem_filter.1 he).2
      have hsource' : e'.source = i := by simpa using (List.mem_filter.1 he').2
      rw [ModuleEdge.ends, ModuleEdge.ends, hsource, hsource', htarget]
    rw [(List.mergeSort_perm _ _).nodup_iff]
    refine hapart.filterMap _ fun e e' hne m hm m' hm' hsame => hne ?_
    exact h.numbered.number_eq hm (hsame ▸ hm')

lemma find?_joins (h : g.IsLinked) {e : ModuleEdge} (he : e ∈ g.edges) :
    g.edges.find? (·.joins e.source e.target) = some e := by
  cases hfind : g.edges.find? (·.joins e.source e.target) with
  | none => exact absurd (ModuleEdge.joins_iff.2 rfl) (List.find?_eq_none.1 hfind e he)
  | some e' =>
    have hjoins := List.find?_some hfind
    rw [h.edge_eq (List.mem_of_find?_eq_some hfind) he (ModuleEdge.joins_iff.1 hjoins)]

/-- The mentions behind a dependency are those from one module to the other. -/
lemma mem_mentionsBetween_iff (h : g.IsLinked) {a b : String}
    {p : QualifiedName × QualifiedName} :
    p ∈ g.mentionsBetween a b ↔ p ∈ g.mentions ∧ p.1.module = a ∧ p.2.module = b := by
  rw [mentionsBetween]
  constructor
  · intro hp
    cases ha : g.index? a with
    | none => simp [ha] at hp
    | some i =>
      cases hb : g.index? b with
      | none => simp [ha, hb] at hp
      | some j =>
        cases hfind : g.edges.find? (·.joins i j) with
        | none => simp [ha, hb, hfind] at hp
        | some e =>
          have hpe : p ∈ e.mentions := by simpa [ha, hb, hfind] using hp
          have he := List.mem_of_find?_eq_some hfind
          have hjoins := List.find?_some hfind
          obtain ⟨rfl, rfl⟩ := Prod.mk.inj (ModuleEdge.joins_iff.1 hjoins)
          obtain ⟨hsource, htarget⟩ := (h.sound e he).leads p hpe
          rw [(h.numbered a _).1 ha] at hsource
          rw [(h.numbered b _).1 hb] at htarget
          exact ⟨mem_mentions_iff.2 ⟨e, he, hpe⟩, (Option.some.inj hsource).symm,
            (Option.some.inj htarget).symm⟩
  · rintro ⟨hp, rfl, rfl⟩
    obtain ⟨e, he, hpe, hsource, htarget⟩ := h.exists_edge hp
    rw [hsource, htarget]
    simpa [h.find?_joins he] using hpe

lemma sorted_mentionsBetween (h : g.IsLinked) (a b : String) :
    MentionsSorted (g.mentionsBetween a b) := by
  rw [mentionsBetween]
  split
  · rename_i i j _ _
    cases hfind : g.edges.find? (·.joins i j) with
    | none => exact List.Pairwise.nil
    | some e => exact (h.sound e (List.mem_of_find?_eq_some hfind)).sorted
  · exact List.Pairwise.nil

end IsLinked

end ModuleGraph

end WireContract.Schema
