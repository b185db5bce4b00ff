import WireContract.Proofs.Chains

/-!
# The ends of chains of aliases

`Registry.aliasEnd` walks along aliases with the names it has passed and a bounded number of steps.
`Registry.EndsAt` says where a chain ends without either: a name that is no alias is its own end, an
alias of another name ends where that name does, and any other alias ends at its target.  The walk
gives the end exactly if there is one (`Indexed.aliasEnd_ok_iff_endsAt`), so what it was called with
and how long it may be do not matter.

From this the test for collections is read.  Through a declared name it follows the chain, so an
alias whose name is a collection has a target that is one (`Indexed.isCollection_target`).
-/

namespace WireContract.Schema

open Relation

namespace Registry

/-- The chain of aliases that starts at a name ends at a type. -/
inductive EndsAt (reg : Registry) : QualifiedName → Resolved → Prop where
  /-- A name that is no alias is its own end. -/
  | type {d : Declaration} (hd : d ∈ reg.declarations) (hkind : d.kind ≠ .alias) :
      EndsAt reg d.name (.declared d.name d.kind)
  /-- An alias of a name ends where the name does. -/
  | link {a : Alias} {next : QualifiedName} {r : Resolved} (ha : .alias a ∈ reg.declarations)
      (htarget : a.target = .declared next) (hnext : EndsAt reg next r) : EndsAt reg a.name r
  /-- An alias of anything else ends at its target. -/
  | target {a : Alias} {r : Resolved} (ha : .alias a ∈ reg.declarations)
      (htarget : ∀ next, a.target ≠ .declared next) (hr : reg.resolve a.target = .ok r) :
      EndsAt reg a.name r

variable {reg : Registry}

/-! ## The walk and the relation -/

/-- Whatever end a walk gives, however it was called, is the end of the chain. -/
lemma endsAt_of_followAlias {start current : QualifiedName} {fuel : ℕ}
    {visited : List QualifiedName} {r : Resolved}
    (h : reg.followAlias start fuel visited current = .ok r) : reg.EndsAt current r := by
  induction fuel generalizing visited current with
  | zero => cases h
  | succ fuel ih =>
    rw [followAlias] at h
    cases hget : reg.get? current with
    | none =>
      rw [hget] at h
      cases h
    | some d =>
      obtain ⟨hd, rfl⟩ := mem_of_get? hget
      rw [hget] at h
      cases d with
      | enum | object | union | error =>
        obtain rfl := Except.ok.inj h
        exact .type hd (by simp [Declaration.kind])
      | «alias» a =>
        dsimp only at h
        split at h
        · cases h
        · split at h
          · rename_i next htarget
            exact .link hd htarget (ih h)
          · rename_i htarget
            cases hresolve : reg.resolve a.target with
            | error q =>
              rw [hresolve] at h
              cases h
            | ok s =>
              rw [hresolve] at h
              obtain rfl := Except.ok.inj h
              exact .target hd htarget hresolve

/-- A chain that ends does not come back to where it started. -/
lemma Indexed.not_cycle_of_endsAt (hreg : reg.Indexed) {q : QualifiedName} {r : Resolved}
    (h : reg.EndsAt q r) : ¬ TransGen (AliasStep reg.declarations) q q := by
  induction h with
  | @type d hd hkind =>
    intro hcycle
    obtain ⟨_, ⟨a, ha, hname, -⟩, -⟩ := TransGen.head'_iff.1 hcycle
    have hda : d = .alias a := hreg.eq_of_name_eq hd ha hname.symm
    rw [hda] at hkind
    exact hkind rfl
  | @link a next r ha htarget _ ih =>
    intro hcycle
    exact ih (transGen_self_of_step hreg.aliasStep_unique ⟨a, ha, rfl, htarget⟩ hcycle)
  | @target a r ha htarget _ =>
    intro hcycle
    obtain ⟨next, ⟨b, hb, hname, hnext⟩, -⟩ := TransGen.head'_iff.1 hcycle
    have hab : Declaration.alias b = .alias a := hreg.eq_of_name_eq hb ha hname
    rw [Declaration.alias.inj hab] at hnext
    exact htarget next hnext

/-- A walk along a chain that ends gives its end, if its steps cover the names not yet passed: the
names passed lead to the present one, so none of them is met again. -/
lemma Indexed.followAlias_of_endsAt (hreg : reg.Indexed) {start current : QualifiedName}
    {r : Resolved} (h : reg.EndsAt current r) {fuel : ℕ} {visited : List QualifiedName}
    (hnodup : visited.Nodup) (hdeclared : ∀ v ∈ visited, ∃ d ∈ reg.declarations, d.name = v)
    (hvisited : ∀ v ∈ visited, TransGen (AliasStep reg.declarations) v current)
    (hfuel : reg.size < fuel + visited.length) :
    reg.followAlias start fuel visited current = .ok r := by
  induction h generalizing fuel visited with
  | @type d hd hkind =>
    have hle := length_le_size hnodup hdeclared
    obtain ⟨fuel, rfl⟩ : ∃ n, fuel = n + 1 := Nat.exists_eq_succ_of_ne_zero (by omega)
    rw [followAlias, hreg.get?_name hd]
    cases d with
    | «alias» a => exact (hkind rfl).elim
    | enum | object | union | error => rfl
  | @link a next r ha htarget hnext ih =>
    have hle := length_le_size hnodup hdeclared
    obtain ⟨fuel, rfl⟩ : ∃ n, fuel = n + 1 := Nat.exists_eq_succ_of_ne_zero (by omega)
    have hget : reg.get? a.name = some (.alias a) := hreg.get?_name ha
    have hfresh : a.name ∉ visited := fun hmem =>
      hreg.not_cycle_of_endsAt (.link ha htarget hnext) (hvisited _ hmem)
    have hstep : AliasStep reg.declarations a.name next := ⟨a, ha, rfl, htarget⟩
    rw [followAlias, hget]
    dsimp only
    rw [if_neg (by simpa using hfresh), htarget]
    refine ih (List.nodup_cons.2 ⟨hfresh, hnodup⟩)
      (List.forall_mem_cons.2 ⟨⟨_, ha, rfl⟩, hdeclared⟩)
      (List.forall_mem_cons.2 ⟨.single hstep, fun v hv => (hvisited v hv).tail hstep⟩) ?_
    rw [List.length_cons]
    omega
  | @target a r ha htarget hr =>
    have hle := length_le_size hnodup hdeclared
    obtain ⟨fuel, rfl⟩ : ∃ n, fuel = n + 1 := Nat.exists_eq_succ_of_ne_zero (by omega)
    have hget : reg.get? a.name = some (.alias a) := hreg.get?_name ha
    have hfresh : a.name ∉ visited := fun hmem =>
      hreg.not_cycle_of_endsAt (.target ha htarget hr) (hvisited _ hmem)
    rw [followAlias, hget]
    dsimp only
    rw [if_neg (by simpa using hfresh)]
    split
    · rename_i next heq
      exact (htarget next heq).elim
    · rw [hr]

/-- The end of the aliases from a name is the end of their chain. -/
theorem Indexed.aliasEnd_ok_iff_endsAt (hreg : reg.Indexed) {q : QualifiedName} {r : Resolved} :
    reg.aliasEnd q = .ok r ↔ reg.EndsAt q r := by
  constructor
  · exact endsAt_of_followAlias
  · intro h
    refine hreg.followAlias_of_endsAt h List.nodup_nil ?_ ?_ ?_
    · exact fun v hv => (List.not_mem_nil hv).elim
    · exact fun v hv => (List.not_mem_nil hv).elim
    · simp

/-! ## Collections -/

/-- Through a declared name, a collection is found at the end of the chain of aliases. -/
lemma Indexed.isCollection_declared_iff (hreg : reg.Indexed) {q : QualifiedName} :
    reg.isCollection (.declared q) = true ↔ ∃ r, reg.EndsAt q r ∧ r.isContainer = true := by
  rw [isCollection]
  cases hend : reg.aliasEnd q with
  | error e =>
    simp only [Bool.false_eq_true, false_iff, not_exists, not_and]
    intro r hr
    rw [← hreg.aliasEnd_ok_iff_endsAt, hend] at hr
    cases hr
  | ok s =>
    constructor
    · exact fun h => ⟨s, hreg.aliasEnd_ok_iff_endsAt.1 hend, h⟩
    · rintro ⟨r, hr, hcontainer⟩
      rw [← hreg.aliasEnd_ok_iff_endsAt, hend] at hr
      obtain rfl := Except.ok.inj hr
      exact hcontainer

/-- A reference that is resolved as a container is a collection as it stands. -/
lemma isCollection_of_resolve {t : TypeRef} {r : Resolved} (hr : reg.resolve t = .ok r)
    (hcontainer : r.isContainer = true) : reg.isCollection t = true := by
  obtain ⟨rfl, -⟩ := resolve_eq_ok_iff.1 hr
  cases r with
  | list | set | map => rfl
  | primitive | binary | optional | declared | external => cases hcontainer

/-- A declared name that is a collection is an alias, and its target is a collection. -/
theorem Indexed.isCollection_target (hreg : reg.Indexed) {q : QualifiedName}
    (h : reg.isCollection (.declared q) = true) :
    ∃ a, .alias a ∈ reg.declarations ∧ a.name = q ∧ reg.isCollection a.target = true := by
  obtain ⟨r, hend, hcontainer⟩ := hreg.isCollection_declared_iff.1 h
  cases hend with
  | type => cases hcontainer
  | @link a next _ ha htarget hnext =>
    refine ⟨a, ha, rfl, ?_⟩
    rw [htarget, hreg.isCollection_declared_iff]
    exact ⟨r, hnext, hcontainer⟩
  | @target a _ ha htarget hr =>
    exact ⟨a, ha, rfl, isCollection_of_resolve hr hcontainer⟩

end Registry

end WireContract.Schema
