import Mathlib.Data.List.Cycle
import WireContract.Proofs.AliasEnds

/-!
# What becomes of a chain of aliases

Following the targets of aliases that are names, from any name of any registry, has one of two
ends.  Either the chain stops, at a name that is not declared, at a type that is no alias, or at an
alias of something else than a name (`StopsAt`).  Or it comes back to an alias that it has passed
(`ComesBack`).  `Registry.aliasEnd` tells which, and what the chain stopped at or goes round through
(`aliasEnd_follows_chain`).

The walk keeps the names it has passed (`Walked`).  They are distinct names of the registry, so the
walk is over after as many steps as there are declarations, and whatever bound beyond that it is
given does not matter.  A chain has one continuation at most: hence it stops at one name only, and a
chain that stops does not come back.
-/

namespace WireContract.Schema

open Relation

/-! ## Chains that stop and chains that come back -/

/-- The chain of aliases from a name stops at another: that one has no target that is a name. -/
def StopsAt (ds : List Declaration) (q c : QualifiedName) : Prop :=
  ReflTransGen (AliasStep ds) q c ∧ ∀ next, ¬ AliasStep ds c next

/-- The chain of aliases from a name meets an alias that it has passed before. -/
def ComesBack (ds : List Declaration) (q : QualifiedName) : Prop :=
  ∃ a, ReflTransGen (AliasStep ds) q a ∧ TransGen (AliasStep ds) a a

/-- The chain of aliases from a name goes through `lead` to the first alias of a circle, and then
round the circle: `path` lists its aliases, the first one again at the end. -/
def RunsInto (ds : List Declaration) (q : QualifiedName) (path : List QualifiedName) : Prop :=
  ∃ lead first ring, path = first :: (ring ++ [first]) ∧ (lead ++ path).head? = some q ∧
    (lead ++ path).IsChain (AliasStep ds) ∧ (lead ++ first :: ring).Nodup

section Chains

variable {α : Type} {R : α → α → Prop}

/-- The first element of a list along which one can step leads to all of it. -/
lemma reflTransGen_of_isChain {l : List α} (hl : l.IsChain R) {a b : α} (ha : l.head? = some a)
    (hb : b ∈ l) : ReflTransGen R a b := by
  refine hl.induction (ReflTransGen R a) l (fun x y hxy hx => hx.tail hxy) (fun hne => ?_) b hb
  rw [List.head?_eq_some_head hne] at ha
  rw [Option.some.inj ha]

/-- A chain of single continuations has one end. -/
lemma eq_of_ends (hdet : Relator.RightUnique R) {a b c : α} (hab : ReflTransGen R a b)
    (hb : ∀ next, ¬ R b next) (hac : ReflTransGen R a c) (hc : ∀ next, ¬ R c next) : b = c := by
  rcases ReflTransGen.total_of_right_unique hdet hab hac with hbc | hcb
  · exact ((reflTransGen_iff_eq hb).1 hbc).symm
  · exact (reflTransGen_iff_eq hc).1 hcb

/-- A chain that ends meets no circle: all that a circle leads to has a continuation. -/
lemma not_transGen_self_of_end (hdet : Relator.RightUnique R) {a b c : α}
    (hab : ReflTransGen R a b) (hb : ∀ next, ¬ R b next) (hac : ReflTransGen R a c) :
    ¬ TransGen R c c := by
  intro hloop
  have hcb : ReflTransGen R c b := by
    rcases ReflTransGen.total_of_right_unique hdet hac hab with hcb | hbc
    · exact hcb
    · rw [(reflTransGen_iff_eq hb).1 hbc]
  obtain ⟨next, hstep, -⟩ := TransGen.head'_iff.1 (transGen_self_of_reflTransGen hdet hcb hloop)
  exact hb next hstep

/-- What leads to an end does so through its one continuation. -/
lemma reflTransGen_iff_of_step (hdet : Relator.RightUnique R) {a b c : α} (hab : R a b)
    (hc : ∀ next, ¬ R c next) : ReflTransGen R a c ↔ ReflTransGen R b c := by
  constructor
  · intro hac
    rcases hac.cases_head with rfl | ⟨b', hab', hbc⟩
    · exact (hc b hab).elim
    · rwa [hdet hab hab']
  · exact .head hab

/-- What a circle leads to leads back to it. -/
lemma reflTransGen_back (hdet : Relator.RightUnique R) {a b : α} (ha : TransGen R a a)
    (hab : ReflTransGen R a b) : ReflTransGen R b a := by
  induction hab with
  | refl => exact .refl
  | @tail b c _ hbc ih =>
    have hloop : TransGen R b a := by
      rcases reflTransGen_iff_eq_or_transGen.1 ih with rfl | h
      · exact ha
      · exact h
    obtain ⟨c', hbc', hback⟩ := TransGen.head'_iff.1 hloop
    rwa [hdet hbc hbc']

/-- Along a circle of single continuations nothing leads out of it. -/
lemma mem_of_circle (hdet : Relator.RightUnique R) {first : α} {ring : List α}
    (hring : (first :: (ring ++ [first])).IsChain R) {a : α} (ha : ReflTransGen R first a) :
    a ∈ first :: (ring ++ [first]) := by
  have hsteps := List.isChain_cons_append_singleton_iff_forall₂.1 hring
  have hmem : a ∈ first :: ring := by
    induction ha with
    | refl => exact List.mem_cons_self
    | @tail b c _ hbc ih =>
      obtain ⟨c', hc', hbc'⟩ := Outcome.exists_of_mem_forall₂ hsteps.flip ih
      rw [hdet hbc hbc']
      rcases List.mem_append.1 hc' with h | h
      · exact List.mem_cons_of_mem _ h
      · rw [List.mem_singleton.1 h]
        exact List.mem_cons_self
  rw [← List.cons_append]
  exact List.mem_append_left _ hmem

end Chains

namespace Registry

variable {reg : Registry} {q c : QualifiedName}

lemma Indexed.stopsAt_unique (hreg : reg.Indexed) {c' : QualifiedName}
    (h : StopsAt reg.declarations q c) (h' : StopsAt reg.declarations q c') : c = c' :=
  eq_of_ends hreg.aliasStep_unique h.1 h.2 h'.1 h'.2

/-- A chain that stops does not come back. -/
lemma Indexed.not_comesBack_of_stopsAt (hreg : reg.Indexed) (h : StopsAt reg.declarations q c) :
    ¬ ComesBack reg.declarations q := by
  rintro ⟨a, hqa, hloop⟩
  exact not_transGen_self_of_end hreg.aliasStep_unique h.1 h.2 hqa hloop

/-- The aliases of a circle are those that the chain meets again and again. -/
lemma Indexed.mem_path_iff (hreg : reg.Indexed) {path : List QualifiedName}
    (h : RunsInto reg.declarations q path) {a : QualifiedName} :
    a ∈ path ↔ ReflTransGen (AliasStep reg.declarations) q a ∧
      TransGen (AliasStep reg.declarations) a a := by
  obtain ⟨lead, first, ring, rfl, hhead, hchain, -⟩ := h
  have hring := (List.isChain_append.1 hchain).2.1
  have hqfirst : ReflTransGen (AliasStep reg.declarations) q first :=
    reflTransGen_of_isChain hchain hhead (List.mem_append_right _ List.mem_cons_self)
  have hfirst : TransGen (AliasStep reg.declarations) first first := by
    have hwalk : Cycle.Chain (AliasStep reg.declarations) (first :: ring : List QualifiedName) :=
      hring
    exact Cycle.chain_iff_pairwise.1 (hwalk.imp fun _ _ => TransGen.single) first
      (Cycle.mem_coe_iff.2 List.mem_cons_self) first (Cycle.mem_coe_iff.2 List.mem_cons_self)
  constructor
  · intro ha
    have hfirsta := reflTransGen_of_isChain hring List.head?_cons ha
    exact ⟨hqfirst.trans hfirsta,
      transGen_self_of_reflTransGen hreg.aliasStep_unique hfirsta hfirst⟩
  · rintro ⟨hqa, hloop⟩
    refine mem_of_circle hreg.aliasStep_unique hring ?_
    rcases ReflTransGen.total_of_right_unique hreg.aliasStep_unique hqfirst hqa with h | h
    · exact h
    · exact reflTransGen_back hreg.aliasStep_unique hloop h

lemma Indexed.comesBack_of_runsInto (hreg : reg.Indexed) {path : List QualifiedName}
    (h : RunsInto reg.declarations q path) : ComesBack reg.declarations q := by
  obtain ⟨lead, first, ring, rfl, -⟩ := id h
  exact ⟨first, (hreg.mem_path_iff h).1 List.mem_cons_self⟩

/-! ## What a chain stops at -/

/-- The first name that is missing is what fails a resolution. -/
lemma resolve_error_iff {r : TypeRef} {name : QualifiedName} :
    reg.resolve r = .error name ↔
      r.mentions.find? (fun mentioned => !reg.contains mentioned) = some name := by
  induction r generalizing name with
  | primitive p | binary => simp [resolve, TypeRef.mentions]
  | declared q =>
    rw [resolve, TypeRef.mentions, List.find?_singleton, contains]
    cases reg.get? q <;> simp
  | optional inner ih | list inner ih | set inner ih | external _ inner ih =>
    rw [resolve, TypeRef.mentions, ← ih]
    cases reg.resolve inner <;> simp [bind, Except.bind, pure, Except.pure]
  | map key value ihk ihv =>
    rw [resolve, TypeRef.mentions, List.find?_append]
    cases hkey : reg.resolve key with
    | error missing =>
      rw [ihk.1 hkey]
      simp [bind, Except.bind]
    | ok k =>
      have hnone : key.mentions.find? (fun mentioned => !reg.contains mentioned) = none := by
        refine Option.eq_none_iff_forall_ne_some.2 fun missing hfound => ?_
        rw [← ihk, hkey] at hfound
        cases hfound
      rw [hnone, Option.none_or, ← ihv]
      cases reg.resolve value <;> simp [bind, Except.bind, pure, Except.pure]

/-- The continuations of a chain by what is declared under the name. -/
lemma Indexed.aliasStep_iff (hreg : reg.Indexed) {next : QualifiedName} :
    AliasStep reg.declarations c next ↔
      ∃ a, reg.get? c = some (.alias a) ∧ a.target = .declared next := by
  constructor
  · rintro ⟨a, ha, rfl, htarget⟩
    exact ⟨a, hreg.get?_name ha, htarget⟩
  · rintro ⟨a, hget, htarget⟩
    obtain ⟨ha, hname⟩ := mem_of_get? hget
    exact ⟨a, ha, hname, htarget⟩

/-- The outcome at a name at which the chain from `start` stops. -/
def stopOutcome (reg : Registry) (start c : QualifiedName) : Except SchemaError Resolved :=
  match reg.get? c with
  | none => .error (.unresolvedType c start.text)
  | some (.alias a) => (reg.resolve a.target).mapError fun name => .unresolvedType name a.name.text
  | some d => .ok (.declared c d.kind)

/-- A chain from a name breaks off: `name` is not declared, and `site` is what mentions it. -/
inductive Misses (reg : Registry) (q : QualifiedName) : QualifiedName → String → Prop where
  /-- The chain itself leads to the name, which is laid to its start. -/
  | link {name : QualifiedName} (hchain : ReflTransGen (AliasStep reg.declarations) q name)
      (hname : ∀ d ∈ reg.declarations, d.name ≠ name) : Misses reg q name q.text
  /-- The name is the first missing one in the target of the last alias, if that is no name. -/
  | target {a : Alias} {name : QualifiedName}
      (hchain : ReflTransGen (AliasStep reg.declarations) q a.name)
      (ha : .alias a ∈ reg.declarations) (htarget : ∀ next, a.target ≠ .declared next)
      (hname : a.target.mentions.find? (fun mentioned => !reg.contains mentioned) = some name) :
      Misses reg q name a.name.text

/-- A chain that breaks off stops, and the name is what is missed there. -/
lemma Indexed.stopOutcome_of_misses (hreg : reg.Indexed) {name : QualifiedName} {site : String}
    (h : reg.Misses q name site) : ∃ c, StopsAt reg.declarations q c ∧
      reg.stopOutcome q c = .error (.unresolvedType name site) := by
  cases h with
  | link hchain hname =>
    have hget := get?_eq_none_iff.2 hname
    refine ⟨name, ⟨hchain, fun next => ?_⟩, ?_⟩
    · simp [hreg.aliasStep_iff, hget]
    · rw [stopOutcome, hget]
  | @target a _ hchain ha htarget hname =>
    have hget : reg.get? a.name = some (.alias a) := hreg.get?_name ha
    refine ⟨a.name, ⟨hchain, fun next hstep => ?_⟩, ?_⟩
    · simp only [hreg.aliasStep_iff, hget, Option.some.injEq, Declaration.alias.injEq,
        exists_eq_left'] at hstep
      exact htarget next hstep
    · rw [stopOutcome, hget]
      dsimp only
      rw [resolve_error_iff.2 hname]
      rfl

/-- A chain that stops fails only by a name that it misses. -/
lemma misses_of_stopOutcome (h : StopsAt reg.declarations q c)
    {e : SchemaError} (he : reg.stopOutcome q c = .error e) :
    ∃ name site, e = .unresolvedType name site ∧ reg.Misses q name site := by
  rw [stopOutcome] at he
  cases hget : reg.get? c with
  | none =>
    rw [hget] at he
    obtain rfl := Except.error.inj he
    exact ⟨c, q.text, rfl, .link h.1 (get?_eq_none_iff.1 hget)⟩
  | some d =>
    rw [hget] at he
    cases d with
    | enum | object | union | error => cases he
    | «alias» a =>
      obtain ⟨ha, rfl⟩ := mem_of_get? hget
      dsimp only at he
      cases hresolve : reg.resolve a.target with
      | ok r =>
        rw [hresolve] at he
        cases he
      | error name =>
        rw [hresolve] at he
        obtain rfl := Except.error.inj he
        refine ⟨name, a.name.text, rfl, .target h.1 ha (fun next htarget => ?_)
          (resolve_error_iff.1 hresolve)⟩
        exact h.2 next ⟨a, ha, rfl, htarget⟩

/-! ## The walk -/

/-- What holds when a walk has come from `start` to `current` through the names `visited`, the
latest first. -/
structure Walked (reg : Registry) (start : QualifiedName) (visited : List QualifiedName)
    (current : QualifiedName) : Prop where
  nodup : visited.Nodup
  declared : ∀ v ∈ visited, ∃ d ∈ reg.declarations, d.name = v
  chain : (visited.reverse ++ [current]).IsChain (AliasStep reg.declarations)
  head : (visited.reverse ++ [current]).head? = some start

namespace Walked

variable {start current next : QualifiedName} {visited : List QualifiedName}

lemma init (reg : Registry) (q : QualifiedName) : reg.Walked q [] q where
  nodup := List.nodup_nil
  declared := fun _ hv => (List.not_mem_nil hv).elim
  chain := List.isChain_singleton q
  head := rfl

lemma reached (h : reg.Walked start visited current) :
    ReflTransGen (AliasStep reg.declarations) start current :=
  reflTransGen_of_isChain h.chain h.head (by simp)

lemma length_le (h : reg.Walked start visited current) : visited.length ≤ reg.size :=
  length_le_size h.nodup h.declared

lemma step (h : reg.Walked start visited current) (hfresh : current ∉ visited)
    (hstep : AliasStep reg.declarations current next) :
    reg.Walked start (current :: visited) next where
  nodup := List.nodup_cons.2 ⟨hfresh, h.nodup⟩
  declared := by
    obtain ⟨a, ha, hname, -⟩ := hstep
    exact List.forall_mem_cons.2 ⟨⟨_, ha, hname⟩, h.declared⟩
  chain := by
    rw [List.reverse_cons, List.isChain_append]
    refine ⟨h.chain, List.isChain_singleton next, ?_⟩
    simpa using hstep
  head := by
    rw [List.reverse_cons, List.head?_append, h.head]
    rfl

/-- A name that has been passed closes a circle, which is what was passed since. -/
lemma runsInto (h : reg.Walked start visited current) (hmem : current ∈ visited) :
    RunsInto reg.declarations start
      (current :: ((visited.takeWhile (· != current)).reverse ++ [current])) := by
  obtain ⟨since, before, rfl, hsince⟩ := List.eq_append_cons_of_mem hmem
  have htake : (since ++ current :: before).takeWhile (· != current) = since := by
    have hother : ∀ v ∈ since, (v != current) = true := by
      intro v hv
      rw [bne_iff_ne]
      rintro rfl
      exact hsince hv
    rw [List.takeWhile_append_of_pos hother]
    simp
  have hlist : (since ++ current :: before).reverse ++ [current] =
      before.reverse ++ current :: (since.reverse ++ [current]) := by simp
  have hnodup : (before.reverse ++ current :: since.reverse).Nodup := by
    have hreverse := List.nodup_reverse.2 h.nodup
    simpa using hreverse
  rw [htake]
  exact ⟨before.reverse, current, since.reverse, rfl, hlist ▸ h.head, hlist ▸ h.chain, hnodup⟩

/-- Steps beyond the number of declarations change nothing. -/
lemma followAlias_eq (h : reg.Walked start visited current) {fuel fuel' : ℕ}
    (hfuel : reg.size < fuel + visited.length) (hfuel' : reg.size < fuel' + visited.length) :
    reg.followAlias start fuel visited current = reg.followAlias start fuel' visited current := by
  induction fuel generalizing fuel' visited current with
  | zero =>
    have hle := h.length_le
    omega
  | succ fuel ih =>
    have hle := h.length_le
    obtain ⟨fuel', rfl⟩ : ∃ n, fuel' = n + 1 := Nat.exists_eq_succ_of_ne_zero (by omega)
    rw [followAlias, followAlias]
    cases hget : reg.get? current with
    | none => rfl
    | some d =>
      obtain ⟨hd, hname⟩ := mem_of_get? hget
      cases d with
      | enum | object | union | error => rfl
      | «alias» a =>
        dsimp only
        by_cases hmem : current ∈ visited
        · rw [if_pos (by simpa using hmem), if_pos (by simpa using hmem)]
        · rw [if_neg (by simpa using hmem), if_neg (by simpa using hmem)]
          cases htarget : a.target with
          | declared next =>
            have hlength : (current :: visited).length = visited.length + 1 := List.length_cons
            exact ih (h.step hmem ⟨a, hd, hname, htarget⟩) (by omega) (by omega)
          | _ => rfl

/-- A walk with enough steps comes to a stop, or to a name that it has passed. -/
lemma followAlias_cases (hreg : reg.Indexed) (h : reg.Walked start visited current) {fuel : ℕ}
    (hfuel : reg.size < fuel + visited.length) :
    (∃ c, StopsAt reg.declarations start c ∧
      reg.followAlias start fuel visited current = reg.stopOutcome start c) ∨
    ∃ path, RunsInto reg.declarations start path ∧
      reg.followAlias start fuel visited current = .error (.aliasCycle path) := by
  induction fuel generalizing visited current with
  | zero =>
    have hle := h.length_le
    omega
  | succ fuel ih =>
    rw [followAlias]
    cases hget : reg.get? current with
    | none =>
      refine .inl ⟨current, ⟨h.reached, fun next => ?_⟩, ?_⟩
      · simp [hreg.aliasStep_iff, hget]
      · rw [stopOutcome, hget]
    | some d =>
      obtain ⟨hd, hname⟩ := mem_of_get? hget
      cases d with
      | enum | object | union | error =>
        refine .inl ⟨current, ⟨h.reached, fun next => ?_⟩, ?_⟩
        · simp [hreg.aliasStep_iff, hget]
        · rw [stopOutcome, hget]
      | «alias» a =>
        dsimp only
        by_cases hmem : current ∈ visited
        · rw [if_pos (by simpa using hmem)]
          exact .inr ⟨_, h.runsInto hmem, rfl⟩
        · rw [if_neg (by simpa using hmem)]
          by_cases hnext : ∃ next, a.target = .declared next
          · obtain ⟨next, hnext⟩ := hnext
            rw [hnext]
            refine ih (h.step hmem ⟨a, hd, hname, hnext⟩) ?_
            rw [List.length_cons]
            omega
          · refine .inl ⟨current, ⟨h.reached, fun next hstep => ?_⟩, ?_⟩
            · simp only [hreg.aliasStep_iff, hget, Option.some.injEq, Declaration.alias.injEq,
                exists_eq_left'] at hstep
              exact hnext ⟨next, hstep⟩
            · rw [stopOutcome, hget]
              dsimp only
              split
              · rename_i next heq
                exact (hnext ⟨next, heq⟩).elim
              · cases reg.resolve a.target <;> rfl

end Walked

/-! ## The end of the aliases -/

lemma Indexed.aliasEnd_cases (hreg : reg.Indexed) (q : QualifiedName) :
    (∃ c, StopsAt reg.declarations q c ∧ reg.aliasEnd q = reg.stopOutcome q c) ∨
    ∃ path, RunsInto reg.declarations q path ∧ reg.aliasEnd q = .error (.aliasCycle path) :=
  (Walked.init reg q).followAlias_cases hreg (by simp)

/-- A cycle is reported only with the circle that the chain runs into. -/
lemma Indexed.runsInto_of_aliasEnd (hreg : reg.Indexed) {path : List QualifiedName}
    (h : reg.aliasEnd q = .error (.aliasCycle path)) : RunsInto reg.declarations q path := by
  rcases hreg.aliasEnd_cases q with ⟨c, hstop, hend⟩ | ⟨path', hpath, hend⟩
  · obtain ⟨name, site, heq, -⟩ := misses_of_stopOutcome hstop (hend.symm.trans h)
    cases heq
  · rw [h] at hend
    obtain rfl := SchemaError.aliasCycle.inj (Except.error.inj hend)
    exact hpath

/-- A chain comes back exactly if a cycle is reported. -/
lemma Indexed.aliasCycle_iff_comesBack (hreg : reg.Indexed) :
    (∃ path, reg.aliasEnd q = .error (.aliasCycle path)) ↔ ComesBack reg.declarations q := by
  constructor
  · rintro ⟨path, h⟩
    exact hreg.comesBack_of_runsInto (hreg.runsInto_of_aliasEnd h)
  · intro h
    rcases hreg.aliasEnd_cases q with ⟨c, hstop, -⟩ | ⟨path, -, hend⟩
    · exact (hreg.not_comesBack_of_stopsAt hstop h).elim
    · exact ⟨path, hend⟩

/-- A name is reported as unresolved exactly if the chain misses it. -/
lemma Indexed.unresolvedType_iff_misses (hreg : reg.Indexed) {name : QualifiedName}
    {site : String} :
    reg.aliasEnd q = .error (.unresolvedType name site) ↔ reg.Misses q name site := by
  rcases hreg.aliasEnd_cases q with ⟨c, hstop, hend⟩ | ⟨path, hpath, hend⟩
  · constructor
    · intro h
      obtain ⟨name', site', heq, hmisses⟩ := misses_of_stopOutcome hstop (hend.symm.trans h)
      obtain ⟨rfl, rfl⟩ := SchemaError.unresolvedType.inj heq
      exact hmisses
    · intro h
      obtain ⟨c', hstop', hmissing⟩ := hreg.stopOutcome_of_misses h
      rw [hend, hreg.stopsAt_unique hstop hstop', hmissing]
  · constructor
    · intro h
      rw [hend] at h
      cases h
    · intro h
      obtain ⟨c, hstop, -⟩ := hreg.stopOutcome_of_misses h
      exact (hreg.not_comesBack_of_stopsAt hstop (hreg.comesBack_of_runsInto hpath)).elim

/-- In every registry and from every name, following aliases is over after as many steps as there
are declarations, and more change nothing.  A cycle is reported exactly if the chain comes back to
an alias, with the aliases of the circle in order; a name exactly if the chain, or the target it
stops at, misses it.  Every other chain gives its end. -/
theorem aliasEnd_follows_chain (ds : List Declaration) (reg : Registry)
    (hreg : ofDeclarations ds = .ok reg) (q : QualifiedName) :
    (∀ steps, reg.size < steps → reg.followAlias q steps [] q = reg.aliasEnd q) ∧
      ((∃ path, reg.aliasEnd q = .error (.aliasCycle path)) ↔ ComesBack reg.declarations q) ∧
      (∀ path, reg.aliasEnd q = .error (.aliasCycle path) → RunsInto reg.declarations q path ∧
        ∀ a, a ∈ path ↔ ReflTransGen (AliasStep reg.declarations) q a ∧
          TransGen (AliasStep reg.declarations) a a) ∧
      (∀ name site, reg.aliasEnd q = .error (.unresolvedType name site) ↔
        reg.Misses q name site) ∧
      (∀ r, reg.aliasEnd q = .ok r ↔ reg.EndsAt q r) ∧
      (ComesBack reg.declarations q ∨ (∃ name site, reg.Misses q name site) ∨
        ∃ r, reg.EndsAt q r) := by
  have hindexed := indexed_of_ofDeclarations hreg
  refine ⟨fun steps hsteps => ?_, hindexed.aliasCycle_iff_comesBack, fun path hpath => ?_,
    fun name site => hindexed.unresolvedType_iff_misses,
    fun r => hindexed.aliasEnd_ok_iff_endsAt, ?_⟩
  · exact (Walked.init reg q).followAlias_eq (by simpa using hsteps) (by simp)
  · have hruns := hindexed.runsInto_of_aliasEnd hpath
    exact ⟨hruns, fun a => hindexed.mem_path_iff hruns⟩
  · rcases hindexed.aliasEnd_cases q with ⟨c, hstop, hend⟩ | ⟨path, hpath, -⟩
    · cases hresult : reg.aliasEnd q with
      | ok r => exact .inr (.inr ⟨r, hindexed.aliasEnd_ok_iff_endsAt.1 hresult⟩)
      | error e =>
        obtain ⟨name, site, -, hmisses⟩ := misses_of_stopOutcome hstop (hend.symm.trans hresult)
        exact .inr (.inl ⟨name, site, hmisses⟩)
    · exact .inl (hindexed.comesBack_of_runsInto hpath)

/-- A chain that runs into a circle from outside, one whose last target misses a name, one that
leads to a missing name, and one that ends at an object. -/
def winding : List Declaration :=
  [.alias ⟨⟨"m", "Entry"⟩, .declared ⟨"m", "Left"⟩, none⟩,
    .alias ⟨⟨"m", "Hollow"⟩, .list (.declared ⟨"m", "Lost"⟩), none⟩,
    .alias ⟨⟨"m", "Left"⟩, .declared ⟨"m", "Right"⟩, none⟩,
    .object ⟨⟨"m", "Point"⟩, [], none⟩,
    .alias ⟨⟨"m", "Right"⟩, .declared ⟨"m", "Left"⟩, none⟩,
    .alias ⟨⟨"m", "Shell"⟩, .declared ⟨"m", "Hollow"⟩, none⟩,
    .alias ⟨⟨"m", "Spot"⟩, .declared ⟨"m", "Point"⟩, none⟩,
    .alias ⟨⟨"m", "Stray"⟩, .declared ⟨"m", "Gone"⟩, none⟩]

/-- The circle is reported without the alias that leads to it, and each missing name with what
mentions it: the alias of the target, or the start of the chain. -/
theorem aliasEnd_follows_chain_winding :
    ofDeclarations winding = .ok ⟨winding⟩ ∧
      (Registry.aliasEnd ⟨winding⟩ ⟨"m", "Entry"⟩ =
          .error (.aliasCycle [⟨"m", "Left"⟩, ⟨"m", "Right"⟩, ⟨"m", "Left"⟩]) ∧
        ComesBack winding ⟨"m", "Entry"⟩ ∧
        RunsInto winding ⟨"m", "Entry"⟩ [⟨"m", "Left"⟩, ⟨"m", "Right"⟩, ⟨"m", "Left"⟩]) ∧
      Registry.Misses ⟨winding⟩ ⟨"m", "Shell"⟩ ⟨"m", "Lost"⟩ "m.Hollow" ∧
      Registry.Misses ⟨winding⟩ ⟨"m", "Stray"⟩ ⟨"m", "Gone"⟩ "m.Stray" ∧
      Registry.EndsAt ⟨winding⟩ ⟨"m", "Spot"⟩ (.declared ⟨"m", "Point"⟩ .object) := by
  have hsorted : winding.mergeSort (fun a b => a.name.le b.name) = winding :=
    List.mergeSort_of_pairwise (by decide)
  have hok : ofDeclarations winding = .ok ⟨winding⟩ :=
    ofDeclarations_ok_iff.2 ⟨by decide, by rw [hsorted]⟩
  have hcycle : Registry.aliasEnd ⟨winding⟩ ⟨"m", "Entry"⟩ =
      .error (.aliasCycle [⟨"m", "Left"⟩, ⟨"m", "Right"⟩, ⟨"m", "Left"⟩]) := by rfl
  obtain ⟨-, hback, hruns, -⟩ := aliasEnd_follows_chain _ _ hok ⟨"m", "Entry"⟩
  obtain ⟨-, -, -, hshell, -⟩ := aliasEnd_follows_chain _ _ hok ⟨"m", "Shell"⟩
  obtain ⟨-, -, -, hstray, -⟩ := aliasEnd_follows_chain _ _ hok ⟨"m", "Stray"⟩
  obtain ⟨-, -, -, -, hspot, -⟩ := aliasEnd_follows_chain _ _ hok ⟨"m", "Spot"⟩
  refine ⟨hok, ⟨hcycle, hback.1 ⟨_, hcycle⟩, (hruns _ hcycle).1⟩, ?_, ?_, ?_⟩
  · exact (hshell _ _).1 (by rfl)
  · exact (hstray _ _).1 (by rfl)
  · exact (hspot _).1 (by rfl)

end Registry

end WireContract.Schema
