import WireContract.Proofs.Resolution

/-!
# Following aliases

Two walks of the registry follow aliases with the names passed on the way and a bounded number of
steps: `followAlias` to the end of a chain, and `canBeKeyAfter` to a type that can be a key.  Both
relations that they follow have at most one successor, so a walk that meets a name again goes round
for ever.  Hence each walk gives what the relation says: `aliasEnd` gives an end unless the chain
comes back, and `canBeKey` holds exactly if the chain ends at a type that can be a key.

The bound never decides.  The names passed are distinct and declared, so there are no more of them
than declarations, and the walks start with more steps than that.
-/

namespace WireContract.Schema

open Relation Outcome

/-! ## Relations with one successor -/

section Deterministic

variable {α : Type} {R : α → α → Prop}

/-- The successor of an element on a cycle is on a cycle. -/
lemma transGen_self_of_step (hdet : Relator.RightUnique R) {a b : α} (hab : R a b)
    (ha : TransGen R a a) : TransGen R b b := by
  obtain ⟨c, hac, hca⟩ := TransGen.head'_iff.1 ha
  obtain rfl := hdet hab hac
  exact TransGen.tail' hca hab

/-- Everything that a cycle leads to is on a cycle, so it has a successor. -/
lemma transGen_self_of_reflTransGen (hdet : Relator.RightUnique R) {a b : α}
    (hab : ReflTransGen R a b) (ha : TransGen R a a) : TransGen R b b := by
  induction hab with
  | refl => exact ha
  | tail _ hstep ih => exact transGen_self_of_step hdet hstep ih

end Deterministic

/-- One alias stands for the other name: its target is that name. -/
def AliasStep (ds : List Declaration) (a b : QualifiedName) : Prop :=
  ∃ x : Alias, .alias x ∈ ds ∧ x.name = a ∧ x.target = .declared b

/-- One reference stands for another: an external name for its fallback, an alias for its target. -/
inductive StandsFor (ds : List Declaration) : TypeRef → TypeRef → Prop where
  | fallback (q : QualifiedName) (r : TypeRef) : StandsFor ds (.external q r) r
  | target {a : Alias} (ha : .alias a ∈ ds) : StandsFor ds (.declared a.name) a.target

/-- A type whose values are keys of a JSON object as they stand. -/
inductive KeyType (ds : List Declaration) : TypeRef → Prop where
  | primitive {p : Primitive} (hp : p ≠ .double ∧ p ≠ .any) : KeyType ds (.primitive p)
  | binary : KeyType ds .binary
  | enum {e : Enum} (he : .enum e ∈ ds) : KeyType ds (.declared e.name)

/-- Ends, through aliases and external fallbacks, at a type whose values can be keys. -/
def EndsAtKey (ds : List Declaration) (r : TypeRef) : Prop :=
  ∃ t, ReflTransGen (StandsFor ds) r t ∧ KeyType ds t

lemma Primitive.canBeKey_iff {p : Primitive} : p.canBeKey = true ↔ p ≠ .double ∧ p ≠ .any := by
  cases p <;> decide

namespace Registry

variable {reg : Registry}

/-! ## Resolution -/

/-- A reference is resolved exactly if all names in it are declared. -/
lemma resolve_ok_iff {r : TypeRef} :
    (∃ s, reg.resolve r = .ok s) ↔
      ∀ q, .declared q ∈ r.subterms → ∃ d ∈ reg.declarations, d.name = q := by
  rw [exists_resolve_ok_iff]
  simp only [TypeRef.mem_mentions_iff, contains_iff]

/-! ## Chains of aliases -/

lemma Indexed.aliasStep_unique (hreg : reg.Indexed) :
    Relator.RightUnique (AliasStep reg.declarations) := by
  rintro a b c ⟨x, hx, hxa, hxb⟩ ⟨y, hy, hya, hyc⟩
  have hxy : Declaration.alias x = .alias y := hreg.eq_of_name_eq hx hy (hxa.trans hya.symm)
  obtain rfl := Declaration.alias.inj hxy
  exact TypeRef.declared.inj (hxb.symm.trans hyc)

/-- A walk that starts on a cycle gives no end, whatever was passed before. -/
lemma Indexed.followAlias_ne_ok_of_cycle (hreg : reg.Indexed) {start current : QualifiedName}
    {fuel : ℕ} {visited : List QualifiedName} {end' : Resolved}
    (hcycle : TransGen (AliasStep reg.declarations) current current) :
    reg.followAlias start fuel visited current ≠ .ok end' := by
  induction fuel generalizing visited current with
  | zero => simp [followAlias]
  | succ fuel ih =>
    obtain ⟨next, hstep, -⟩ := TransGen.head'_iff.1 hcycle
    have hnext := transGen_self_of_step hreg.aliasStep_unique hstep hcycle
    obtain ⟨a, ha, rfl, htarget⟩ := hstep
    have hget : reg.get? a.name = some (.alias a) := hreg.get?_name ha
    rw [followAlias, hget]
    dsimp only
    split
    · simp
    · rw [htarget]
      exact ih hnext

/-- A walk over declared names gives an end unless it comes back: the names passed lead to the
present one, so none of them is met again. -/
lemma Indexed.followAlias_ok (hreg : reg.Indexed)
    (hnamed : ∀ q, Occurs reg.declarations (.declared q) → ∃ d ∈ reg.declarations, d.name = q)
    (hacyclic : ∀ q, ¬ TransGen (AliasStep reg.declarations) q q)
    {start current : QualifiedName} {fuel : ℕ} {visited : List QualifiedName}
    (hcurrent : ∃ d ∈ reg.declarations, d.name = current)
    (hnodup : visited.Nodup) (hdeclared : ∀ v ∈ visited, ∃ d ∈ reg.declarations, d.name = v)
    (hvisited : ∀ v ∈ visited, TransGen (AliasStep reg.declarations) v current)
    (hfuel : reg.size < fuel + visited.length) :
    ∃ r, reg.followAlias start fuel visited current = .ok r := by
  induction fuel generalizing visited current with
  | zero =>
    have hle := length_le_size hnodup hdeclared
    omega
  | succ fuel ih =>
    obtain ⟨d, hd, hname⟩ := hcurrent
    rw [followAlias, hreg.get?_eq_some_iff.2 ⟨hd, hname⟩]
    cases d with
    | enum | object | union | error => exact ⟨_, rfl⟩
    | «alias» a =>
      have hfresh : current ∉ visited := fun h => hacyclic _ (hvisited _ h)
      have hrefers : ∀ q, .declared q ∈ a.target.subterms → ∃ d ∈ reg.declarations, d.name = q :=
        fun q hq => hnamed q ⟨_, hd, "", a.target, List.mem_singleton_self _, hq⟩
      dsimp only
      rw [if_neg (by simpa using hfresh)]
      split
      · rename_i next htarget
        have hstep : AliasStep reg.declarations current next := ⟨a, hd, hname, htarget⟩
        refine ih (hrefers next (by simp [htarget])) (List.nodup_cons.2 ⟨hfresh, hnodup⟩)
          (List.forall_mem_cons.2 ⟨⟨_, hd, hname⟩, hdeclared⟩)
          (List.forall_mem_cons.2 ⟨.single hstep, fun v hv => (hvisited v hv).tail hstep⟩) ?_
        rw [List.length_cons]
        omega
      · obtain ⟨s, hs⟩ := resolve_ok_iff.2 hrefers
        rw [hs]
        exact ⟨s, rfl⟩

/-- Where all names are declared, every alias has an end exactly if no alias comes back to itself
by targets that are names. -/
theorem Indexed.aliasEnd_ok_iff (hreg : reg.Indexed)
    (hnamed : ∀ q, Occurs reg.declarations (.declared q) → ∃ d ∈ reg.declarations, d.name = q) :
    (∀ a, .alias a ∈ reg.declarations → ∃ r, reg.aliasEnd a.name = .ok r) ↔
      ∀ q, ¬ TransGen (AliasStep reg.declarations) q q := by
  constructor
  · intro hends q hcycle
    obtain ⟨_, ⟨a, ha, rfl, -⟩, -⟩ := TransGen.head'_iff.1 hcycle
    obtain ⟨r, hr⟩ := hends a ha
    exact hreg.followAlias_ne_ok_of_cycle hcycle hr
  · intro hacyclic a ha
    refine hreg.followAlias_ok hnamed hacyclic ⟨_, ha, rfl⟩ List.nodup_nil ?_ ?_ ?_
    · exact fun v hv => (List.not_mem_nil hv).elim
    · exact fun v hv => (List.not_mem_nil hv).elim
    · simp

/-! ## Keys -/

lemma Indexed.standsFor_unique (hreg : reg.Indexed) :
    Relator.RightUnique (StandsFor reg.declarations) := by
  intro r s t hs ht
  cases hs with
  | fallback => cases ht; rfl
  | @target a ha =>
    generalize hname : TypeRef.declared a.name = r at ht
    cases ht with
    | fallback => cases hname
    | @target b hb =>
      have hab : Declaration.alias a = .alias b :=
        hreg.eq_of_name_eq ha hb (TypeRef.declared.inj hname)
      rw [Declaration.alias.inj hab]

/-- A type that can be a key stands for nothing else. -/
lemma Indexed.not_standsFor_of_keyType (hreg : reg.Indexed) {t s : TypeRef}
    (ht : KeyType reg.declarations t) : ¬ StandsFor reg.declarations t s := by
  intro hs
  cases hs with
  | fallback => cases ht
  | @target a ha =>
    generalize hname : TypeRef.declared a.name = r at ht
    cases ht with
    | primitive | binary => cases hname
    | @enum e he =>
      have hae : Declaration.alias a = .enum e :=
        hreg.eq_of_name_eq ha he (TypeRef.declared.inj hname)
      cases hae

/-- What ends at a key type does not come back to itself. -/
lemma Indexed.not_cycle_of_endsAtKey (hreg : reg.Indexed) {r : TypeRef}
    (hr : EndsAtKey reg.declarations r) : ¬ TransGen (StandsFor reg.declarations) r r := by
  intro hcycle
  obtain ⟨t, hrt, ht⟩ := hr
  have ht' := transGen_self_of_reflTransGen hreg.standsFor_unique hrt hcycle
  obtain ⟨s, hts, -⟩ := TransGen.head'_iff.1 ht'
  exact hreg.not_standsFor_of_keyType ht hts

lemma endsAtKey_cases {r : TypeRef} (hr : EndsAtKey reg.declarations r) :
    KeyType reg.declarations r ∨
      ∃ s, StandsFor reg.declarations r s ∧ EndsAtKey reg.declarations s := by
  obtain ⟨t, hrt, ht⟩ := hr
  rcases ReflTransGen.cases_head hrt with rfl | ⟨s, hrs, hst⟩
  · exact .inl ht
  · exact .inr ⟨s, hrs, t, hst, ht⟩

lemma standsFor_withoutExternals (reg : Registry) (r : TypeRef) :
    ReflTransGen (StandsFor reg.declarations) r r.withoutExternals := by
  induction r with
  | external q fallback ih => exact .head (.fallback q fallback) ih
  | _ => exact .refl

lemma endsAtKey_withoutExternals {r : TypeRef} (hr : EndsAtKey reg.declarations r) :
    EndsAtKey reg.declarations r.withoutExternals := by
  induction r with
  | external q fallback ih =>
    rcases endsAtKey_cases hr with hkey | ⟨s, hs, hend⟩
    · cases hkey
    · cases hs
      exact ih hend
  | _ => exact hr

lemma withoutExternals_ne_external (r fallback : TypeRef) (q : QualifiedName) :
    r.withoutExternals ≠ .external q fallback := by
  induction r with
  | external q' r' ih => exact ih
  | _ => simp [TypeRef.withoutExternals]

/-- The walk finds a key type only at the end of a chain. -/
lemma endsAtKey_of_canBeKeyAfter {fuel : ℕ} {visited : List QualifiedName} {r : TypeRef}
    (h : reg.canBeKeyAfter fuel visited r = true) : EndsAtKey reg.declarations r := by
  induction fuel generalizing visited r with
  | zero => simp [canBeKeyAfter] at h
  | succ fuel ih =>
    have hchain := standsFor_withoutExternals reg r
    rw [canBeKeyAfter] at h
    split at h
    · rename_i p hp
      exact ⟨_, hp ▸ hchain, .primitive (Primitive.canBeKey_iff.1 h)⟩
    · rename_i hb
      exact ⟨_, hb ▸ hchain, .binary⟩
    · rename_i q hq
      rw [hq] at hchain
      split at h
      · cases h
      · split at h
        · rename_i e hget
          obtain ⟨he, rfl⟩ := mem_of_get? hget
          exact ⟨_, hchain, .enum he⟩
        · rename_i a hget
          obtain ⟨ha, rfl⟩ := mem_of_get? hget
          obtain ⟨t, htarget, ht⟩ := ih h
          exact ⟨t, hchain.trans (.head (.target ha) htarget), ht⟩
        · cases h
    · cases h

/-- A chain that ends at a key type is walked to its end: the names passed lead to the present
reference, so none of them is met again. -/
lemma Indexed.canBeKeyAfter_of_endsAtKey (hreg : reg.Indexed) {fuel : ℕ}
    {visited : List QualifiedName} {r : TypeRef} (hend : EndsAtKey reg.declarations r)
    (hnodup : visited.Nodup) (hdeclared : ∀ v ∈ visited, ∃ d ∈ reg.declarations, d.name = v)
    (hvisited : ∀ v ∈ visited, TransGen (StandsFor reg.declarations) (.declared v) r)
    (hfuel : reg.size < fuel + visited.length) : reg.canBeKeyAfter fuel visited r = true := by
  induction fuel generalizing visited r with
  | zero =>
    have hle := length_le_size hnodup hdeclared
    omega
  | succ fuel ih =>
    have hchain := standsFor_withoutExternals reg r
    have hend' := endsAtKey_withoutExternals hend
    rw [canBeKeyAfter]
    generalize hr' : r.withoutExternals = r' at hchain hend'
    rcases endsAtKey_cases hend' with hkey | ⟨s, hstep, hs⟩
    · cases hkey with
      | primitive hp => exact Primitive.canBeKey_iff.2 hp
      | binary => rfl
      | @enum e he =>
        have hfresh : e.name ∉ visited := fun h =>
          hreg.not_cycle_of_endsAtKey hend' ((hvisited _ h).trans_left hchain)
        have hget : reg.get? e.name = some (.enum e) := hreg.get?_name he
        dsimp only
        rw [if_neg (by simpa using hfresh), hget]
    · cases hstep with
      | fallback => exact (withoutExternals_ne_external _ _ _ hr').elim
      | @target a ha =>
        have hfresh : a.name ∉ visited := fun h =>
          hreg.not_cycle_of_endsAtKey hend' ((hvisited _ h).trans_left hchain)
        have hget : reg.get? a.name = some (.alias a) := hreg.get?_name ha
        dsimp only
        rw [if_neg (by simpa using hfresh), hget]
        refine ih hs (List.nodup_cons.2 ⟨hfresh, hnodup⟩)
          (List.forall_mem_cons.2 ⟨⟨_, ha, rfl⟩, hdeclared⟩) (List.forall_mem_cons.2 ⟨?_, ?_⟩) ?_
        · exact .single (.target ha)
        · exact fun v hv => ((hvisited v hv).trans_left hchain).tail (.target ha)
        · rw [List.length_cons]
          omega

/-- Values of a reference can be keys exactly if it ends, through aliases and external fallbacks, at
a type whose values can be. -/
theorem Indexed.canBeKey_iff (hreg : reg.Indexed) {r : TypeRef} :
    reg.canBeKey r = true ↔ EndsAtKey reg.declarations r := by
  constructor
  · exact endsAtKey_of_canBeKeyAfter
  · intro h
    refine hreg.canBeKeyAfter_of_endsAtKey h List.nodup_nil ?_ ?_ ?_
    · exact fun v hv => (List.not_mem_nil hv).elim
    · exact fun v hv => (List.not_mem_nil hv).elim
    · simp

end Registry

end WireContract.Schema
