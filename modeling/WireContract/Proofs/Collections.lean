import WireContract.Proofs.Acceptance
import WireContract.Proofs.AliasOutcomes
import WireContract.Proofs.RecordRoundTrip

/-!
# Which references are collections

On the wire a reference is a collection if, through aliases and external fallbacks, it stands for a
list, a set or a map (`StandsForContainer`).  The test `Registry.isCollection` looks through the
fallbacks of the reference itself and then along aliases, but not through the fallback of an alias:
the walk along aliases ends there.  So an alias of an external name hides the collection behind it
(`HidesFallback`), and the test finds the collections that no alias on the way hides
(`Lawful.isCollection_iff`).

Fields follow the test.  A missing field and a null are read as empty exactly if it holds of the
reference of the field (`readsNothingAsEmpty_iff`), so a field of such an alias is required although
its values are lists, sets or maps like those of the target.
-/

namespace WireContract.Schema

open Relation

/-- Lists, sets and maps. -/
def TypeRef.isContainer : TypeRef → Bool
  | list _ | set _ | map _ _ => true
  | _ => false

/-- Stands, through aliases and external fallbacks, for a list, a set or a map. -/
def StandsForContainer (ds : List Declaration) (r : TypeRef) : Prop :=
  ∃ t, ReflTransGen (StandsFor ds) r t ∧ t.isContainer = true

/-- Comes, through aliases and external fallbacks, to an alias of an external name. -/
def HidesFallback (ds : List Declaration) (r : TypeRef) : Prop :=
  ∃ a q fallback, .alias a ∈ ds ∧ ReflTransGen (StandsFor ds) r (.declared a.name) ∧
    a.target = .external q fallback

section Perm

variable {ds ds' : List Declaration} {r : TypeRef}

lemma standsFor_eq_of_perm (hperm : ds.Perm ds') : StandsFor ds = StandsFor ds' := by
  funext r s
  refine propext ⟨fun h => ?_, fun h => ?_⟩
  · cases h with
    | fallback q => exact .fallback q s
    | target ha => exact .target (hperm.mem_iff.1 ha)
  · cases h with
    | fallback q => exact .fallback q s
    | target ha => exact .target (hperm.mem_iff.2 ha)

lemma standsForContainer_iff_of_perm (hperm : ds.Perm ds') :
    StandsForContainer ds r ↔ StandsForContainer ds' r := by
  rw [StandsForContainer, StandsForContainer, standsFor_eq_of_perm hperm]

lemma hidesFallback_iff_of_perm (hperm : ds.Perm ds') :
    HidesFallback ds r ↔ HidesFallback ds' r := by
  simp only [HidesFallback, standsFor_eq_of_perm hperm, hperm.mem_iff]

end Perm

section Steps

variable {reg : Registry} {r s : TypeRef}

lemma not_standsFor_of_isContainer {ds : List Declaration} (hr : r.isContainer = true) :
    ¬ StandsFor ds r s := by
  intro h
  cases h <;> cases hr

/-- What a reference stands for is a container exactly if that is so for its successor. -/
lemma Registry.Indexed.standsForContainer_iff_of_step (hreg : reg.Indexed)
    (h : StandsFor reg.declarations r s) :
    StandsForContainer reg.declarations r ↔ StandsForContainer reg.declarations s :=
  exists_congr fun _ => and_congr_left fun ht =>
    reflTransGen_iff_of_step hreg.standsFor_unique h fun _ => not_standsFor_of_isContainer ht

/-- An alias hides a fallback if its target is one, or hides one. -/
lemma Registry.Indexed.hidesFallback_alias_iff (hreg : reg.Indexed) {a : Alias}
    (ha : .alias a ∈ reg.declarations) :
    HidesFallback reg.declarations (.declared a.name) ↔
      (∃ q fallback, a.target = .external q fallback) ∨
        HidesFallback reg.declarations a.target := by
  constructor
  · rintro ⟨b, q, fallback, hb, hab, htarget⟩
    rcases hab.cases_head with heq | ⟨s, hs, hsb⟩
    · have hba : Declaration.alias b = .alias a :=
        hreg.eq_of_name_eq hb ha (TypeRef.declared.inj heq).symm
      obtain rfl := Declaration.alias.inj hba
      exact .inl ⟨q, fallback, htarget⟩
    · rw [hreg.standsFor_unique hs (.target ha)] at hsb
      exact .inr ⟨b, q, fallback, hb, hsb, htarget⟩
  · rintro (⟨q, fallback, htarget⟩ | ⟨b, q, fallback, hb, hab, htarget⟩)
    · exact ⟨a, q, fallback, ha, .refl, htarget⟩
    · exact ⟨b, q, fallback, hb, .head (.target ha) hab, htarget⟩

lemma hidesFallback_external_iff {ds : List Declaration} {q : QualifiedName} :
    HidesFallback ds (.external q r) ↔ HidesFallback ds r := by
  constructor
  · rintro ⟨a, q', fallback, ha, hra, htarget⟩
    rcases hra.cases_head with heq | ⟨s, hs, hsa⟩
    · cases heq
    · cases hs
      exact ⟨a, q', fallback, ha, hsa, htarget⟩
  · rintro ⟨a, q', fallback, ha, hra, htarget⟩
    exact ⟨a, q', fallback, ha, .head (.fallback q r) hra, htarget⟩

/-- A reference that stands for nothing else is a container or is none, and hides nothing. -/
lemma standsForContainer_and_not_hides_of_stuck {ds : List Declaration}
    (hstuck : ∀ s, ¬ StandsFor ds r s) (hr : ∀ q, r ≠ .declared q) :
    StandsForContainer ds r ∧ ¬ HidesFallback ds r ↔ r.isContainer = true := by
  constructor
  · rintro ⟨⟨t, hrt, ht⟩, -⟩
    rwa [(reflTransGen_iff_eq hstuck).1 hrt] at ht
  · refine fun h => ⟨⟨r, .refl, h⟩, ?_⟩
    rintro ⟨a, -, -, -, hra, -⟩
    exact hr _ ((reflTransGen_iff_eq hstuck).1 hra).symm

end Steps

namespace Registry

variable {reg : Registry}

/-- A resolved reference is a container exactly if the reference is one. -/
lemma isContainer_of_resolve {t : TypeRef} {r : Resolved} (h : reg.resolve t = .ok r) :
    r.isContainer = t.isContainer := by
  obtain ⟨rfl, -⟩ := resolve_eq_ok_iff.1 h
  cases r <;> rfl

/-- A chain of aliases that ends at a container passes no alias of an external name. -/
lemma Indexed.standsForContainer_of_endsAt (hreg : reg.Indexed) {q : QualifiedName} {r : Resolved}
    (h : reg.EndsAt q r) (hr : r.isContainer = true) :
    StandsForContainer reg.declarations (.declared q) ∧
      ¬ HidesFallback reg.declarations (.declared q) := by
  induction h with
  | type => cases hr
  | @link a next r ha htarget _ ih =>
    rw [hreg.standsForContainer_iff_of_step (.target ha), hreg.hidesFallback_alias_iff ha, htarget]
    simpa using ih hr
  | @target a r ha htarget hresolve =>
    rw [isContainer_of_resolve hresolve] at hr
    rw [hreg.standsForContainer_iff_of_step (.target ha), hreg.hidesFallback_alias_iff ha, not_or]
    have hstuck : ∀ s, ¬ StandsFor reg.declarations a.target s := fun _ =>
      not_standsFor_of_isContainer hr
    obtain ⟨hcontainer, hhides⟩ :=
      (standsForContainer_and_not_hides_of_stuck hstuck htarget).2 hr
    refine ⟨hcontainer, ?_, hhides⟩
    rintro ⟨q, fallback, heq⟩
    rw [heq] at hr
    cases hr

end Registry

/-- An alias that stands for a container, past no alias of an external name, has a chain that ends
at one. -/
lemma Lawful.exists_endsAt {reg : Registry} (hlawful : Lawful reg.declarations) {r : TypeRef}
    (h : StandsForContainer reg.declarations r) {q : QualifiedName} (hr : r = .declared q)
    (hhides : ¬ HidesFallback reg.declarations r) :
    ∃ s, reg.EndsAt q s ∧ s.isContainer = true := by
  have hreg : reg.Indexed := hlawful.distinct
  obtain ⟨t, hrt, ht⟩ := h
  induction hrt using ReflTransGen.head_induction_on generalizing q with
  | refl =>
    rw [hr] at ht
    cases ht
  | @head r s hrs hst ih =>
    cases hrs with
    | fallback => cases hr
    | @target a ha =>
      obtain rfl := TypeRef.declared.inj hr
      rw [hreg.hidesFallback_alias_iff ha, not_or] at hhides
      by_cases hnext : ∃ next, a.target = .declared next
      · obtain ⟨next, hnext⟩ := hnext
        obtain ⟨end', hend, hcontainer⟩ := ih hnext hhides.2
        exact ⟨end', .link ha hnext hend, hcontainer⟩
      · -- a target that is neither a name nor external stands for itself
        have hstuck : ∀ s, ¬ StandsFor reg.declarations a.target s := by
          intro s hs
          generalize htarget : a.target = target at hs
          cases hs with
          | fallback q => exact hhides.1 ⟨q, _, htarget⟩
          | target => exact hnext ⟨_, htarget⟩
        rw [(reflTransGen_iff_eq hstuck).1 hst] at ht
        obtain ⟨s, hs⟩ : ∃ s, reg.resolve a.target = .ok s := by
          refine Registry.resolve_ok_iff.2 fun q hq => ?_
          have hoccurs : Occurs reg.declarations (.declared q) :=
            ⟨.alias a, ha, "", a.target, List.mem_singleton_self _, hq⟩
          obtain ⟨d, hd, hname, -⟩ := hlawful.declared q hoccurs
          exact ⟨d, hd, hname⟩
        exact ⟨s, .target ha (fun next heq => hnext ⟨next, heq⟩) hs,
          (Registry.isContainer_of_resolve hs).trans ht⟩

/-- Where all names are declared, the collections that are found are those that no alias of an
external name hides. -/
theorem Lawful.isCollection_iff {reg : Registry} (hlawful : Lawful reg.declarations)
    {r : TypeRef} :
    reg.isCollection r = true ↔
      StandsForContainer reg.declarations r ∧ ¬ HidesFallback reg.declarations r := by
  have hreg : reg.Indexed := hlawful.distinct
  induction r with
  | external q fallback ih =>
    rw [Registry.isCollection, hidesFallback_external_iff,
      hreg.standsForContainer_iff_of_step (.fallback q fallback)]
    exact ih
  | declared q =>
    rw [hreg.isCollection_declared_iff]
    constructor
    · rintro ⟨r, hend, hr⟩
      exact hreg.standsForContainer_of_endsAt hend hr
    · rintro ⟨hcontainer, hhides⟩
      exact hlawful.exists_endsAt hcontainer rfl hhides
  | primitive | binary | optional | list | set | map =>
    rw [standsForContainer_and_not_hides_of_stuck (fun s hs => by cases hs) (by simp)]
    rfl

/-- An alias is found to be a collection exactly if its target is and is not external. -/
lemma Lawful.isCollection_alias_iff {reg : Registry} (hlawful : Lawful reg.declarations) {a : Alias}
    (ha : .alias a ∈ reg.declarations) :
    reg.isCollection (.declared a.name) = true ↔
      reg.isCollection a.target = true ∧ ∀ q fallback, a.target ≠ .external q fallback := by
  have hreg : reg.Indexed := hlawful.distinct
  rw [hlawful.isCollection_iff, hlawful.isCollection_iff,
    hreg.standsForContainer_iff_of_step (.target ha), hreg.hidesFallback_alias_iff ha, not_or,
    not_exists]
  simp only [not_exists]
  tauto

end WireContract.Schema

namespace WireContract.Wire

open Json Schema Relation

/-! ## Forms of collections -/

/-- Lists, sets and maps. -/
def Base.isContainer : Base → Bool
  | .list _ | .set _ | .map _ _ => true
  | _ => false

/-- A reference has the form of a container, through at most `fuel` aliases. -/
def HasContainerForm (reg : Registry) (fuel : ℕ) (r : TypeRef) : Prop :=
  ∃ b, formWithin reg fuel r = some ⟨0, b⟩ ∧ b.isContainer = true

section Forms

variable {reg : Registry}

lemma hasContainerForm_of_isContainer {r : TypeRef} (hr : r.isContainer = true) {fuel : ℕ}
    (hfuel : 0 < fuel) : HasContainerForm reg fuel r := by
  obtain ⟨fuel, rfl⟩ := Nat.exists_eq_add_one_of_ne_zero (Nat.ne_of_gt hfuel)
  cases r with
  | list item => exact ⟨.list item, rfl, rfl⟩
  | set item => exact ⟨.set item, rfl, rfl⟩
  | map key value => exact ⟨.map key value, rfl, rfl⟩
  | _ => cases hr

/-- An alias has the form of its target, with one step more. -/
lemma hasContainerForm_alias {a : Alias} (hget : reg.get? a.name = some (.alias a)) {fuel : ℕ}
    (h : HasContainerForm reg fuel a.target) :
    HasContainerForm reg (fuel + 1) (.declared a.name) := by
  obtain ⟨b, hform, hb⟩ := h
  refine ⟨b, ?_, hb⟩
  simp [formWithin, peel, hget, hform]

/-- A walk along a chain that ends meets no name again. -/
lemma not_mem_visited_of_endsAt (hreg : reg.Indexed) {start current : QualifiedName} {r : Resolved}
    (h : reg.EndsAt current r) {visited : List QualifiedName}
    (hwalk : reg.Walked start visited current) : current ∉ visited := by
  intro hmem
  obtain ⟨-, hcycle⟩ := (hreg.mem_path_iff (hwalk.runsInto hmem)).1 List.mem_cons_self
  exact hreg.not_cycle_of_endsAt h hcycle

/-- A chain of aliases that ends at a container has its form, if the steps cover the names that the
walk has not passed. -/
lemma hasContainerForm_of_endsAt (hreg : reg.Indexed) {start current : QualifiedName} {r : Resolved}
    (h : reg.EndsAt current r) (hr : r.isContainer = true) {visited : List QualifiedName}
    (hwalk : reg.Walked start visited current) {fuel : ℕ}
    (hfuel : reg.size < fuel + visited.length) :
    HasContainerForm reg fuel (.declared current) := by
  induction h generalizing visited fuel with
  | type => cases hr
  | @link a next r ha htarget hnext ih =>
    have hle := hwalk.length_le
    obtain ⟨fuel, rfl⟩ : ∃ n, fuel = n + 1 := Nat.exists_eq_succ_of_ne_zero (by omega)
    have hfresh := not_mem_visited_of_endsAt hreg (.link ha htarget hnext) hwalk
    refine hasContainerForm_alias (hreg.get?_name ha) ?_
    rw [htarget]
    refine ih hr (hwalk.step hfresh ⟨a, ha, rfl, htarget⟩) ?_
    rw [List.length_cons]
    omega
  | @target a r ha htarget hresolve =>
    have hfresh := not_mem_visited_of_endsAt hreg (.target ha htarget hresolve) hwalk
    have hle : (a.name :: visited).length ≤ reg.size :=
      Registry.length_le_size (List.nodup_cons.2 ⟨hfresh, hwalk.nodup⟩)
        (List.forall_mem_cons.2 ⟨⟨_, ha, rfl⟩, hwalk.declared⟩)
    rw [List.length_cons] at hle
    obtain ⟨fuel, rfl⟩ : ∃ n, fuel = n + 1 := Nat.exists_eq_succ_of_ne_zero (by omega)
    rw [Registry.isContainer_of_resolve hresolve] at hr
    exact hasContainerForm_alias (hreg.get?_name ha) (hasContainerForm_of_isContainer hr (by omega))

/-- The collections that are found have the form of a container. -/
lemma hasContainerForm_of_isCollection (hreg : reg.Indexed) {r : TypeRef}
    (h : reg.isCollection r = true) : HasContainerForm reg (reg.size + 1) r := by
  induction r with
  | list | set | map => exact hasContainerForm_of_isContainer rfl (Nat.succ_pos _)
  | declared q =>
    obtain ⟨s, hend, hs⟩ := hreg.isCollection_declared_iff.1 h
    exact hasContainerForm_of_endsAt hreg hend hs (.init reg q) (by simp)
  | external q fallback ih => exact ih h
  | primitive | binary | optional => cases h

end Forms

/-! ## Fields that read nothing as empty -/

/-- Lists and maps with nothing in them. -/
def Value.IsEmpty (v : Value) : Prop :=
  v = .list [] ∨ v = .map []

/-- A field that is missing and one that is null are read as the same empty collection. -/
def ReadsNothingAsEmpty (reg : Registry) (field : Field) : Prop :=
  ∃ empty : Value, empty.IsEmpty ∧ ∀ limit source,
    FieldReads reg (inside reg limit) source field none empty ∧
      FieldReads reg (inside reg limit) source field (some .null) empty

section Reading

variable {reg : Registry}

lemma isEmpty_defaultOf (hreg : reg.Indexed) {r : TypeRef} (h : reg.isCollection r = true) :
    (defaultOf reg r).IsEmpty := by
  obtain ⟨b, hform, hb⟩ := hasContainerForm_of_isCollection hreg h
  rw [defaultOf, form?, hform]
  cases b with
  | list | set => exact .inl rfl
  | map => exact .inr rfl
  | _ => cases hb

/-- Of the values without an optional around them, only one of any kind can be null. -/
lemma eq_any_of_readBase_null {read : ReadInside} {r : Reader} {b : Base} {v : Value}
    (h : readBase reg read r .null b = .ok v) : v = .any .null := by
  cases b with
  | primitive p =>
    cases p with
    | any =>
      obtain rfl := Except.ok.inj h
      rfl
    | _ => cases h
  | _ => cases h

/-- Whatever a reference is, null is not read as an empty collection of it. -/
lemma not_isEmpty_of_inside_null {limit : ℕ} (hlimit : 0 < limit) {source : Source} {t : TypeRef}
    {v : Value} (h : inside reg limit source t .null = .ok v) : ¬ v.IsEmpty := by
  rw [inside, decode] at h
  split at h
  · rename_i f _
    obtain ⟨n, b⟩ := f
    cases n with
    | zero =>
      rw [decodeForm_base hlimit] at h
      rw [eq_any_of_readBase_null h]
      simp [Value.IsEmpty]
    | succ n =>
      rw [decodeForm_null hlimit] at h
      obtain rfl := Except.ok.inj h
      simp [Value.IsEmpty]
  · cases h

lemma fieldRule_eq_emptyDefault_iff {r : TypeRef} :
    reg.fieldRule r = .emptyDefault ↔ reg.isCollection r = true := by
  unfold Registry.fieldRule
  by_cases h : reg.isCollection r = true
  · simp [h]
  · rw [if_neg h]
    cases r <;> simp [h]

/-- A missing field and a null are read as empty exactly if the reference is found to be a
collection. -/
theorem readsNothingAsEmpty_iff (hreg : reg.Indexed) {field : Field} :
    ReadsNothingAsEmpty reg field ↔ reg.isCollection field.type = true := by
  constructor
  · rintro ⟨empty, hempty, hreads⟩
    by_contra hnot
    obtain ⟨-, -, hread⟩ := hreads 1 .value
    have hnull := hread fun h => hnot (fieldRule_eq_emptyDefault_iff.1 h.1)
    exact not_isEmpty_of_inside_null Nat.one_pos hnull hempty
  · intro h
    refine ⟨defaultOf reg field.type, isEmpty_defaultOf hreg h, fun limit source => ?_⟩
    simp [FieldReads, presenceOf, fieldRule_eq_emptyDefault_iff.2 h]

end Reading

/-! ## Collections of a contract -/

/-- In every accepted document, a reference is found to be a collection exactly if it stands for a
list, a set or a map past no alias of an external name.  So an alias is one if its target is, unless
the target is external, and it is the same with the fields that read nothing and null as empty. -/
theorem isCollection_unless_fallback_hidden (doc : Document) (c : Contract)
    (h : Contract.ofDocument doc = .ok c) :
    (∀ r, c.registry.isCollection r = true ↔
      StandsForContainer doc.declarations r ∧ ¬ HidesFallback doc.declarations r) ∧
    (∀ field, ReadsNothingAsEmpty c.registry field ↔
      c.registry.isCollection field.type = true) ∧
    ∀ a, .alias a ∈ doc.declarations →
      (c.registry.isCollection (.declared a.name) = true ↔
        c.registry.isCollection a.target = true ∧ ∀ q fallback, a.target ≠ .external q fallback) ∧
      ∀ field : Field, field.type = .declared a.name →
        (ReadsNothingAsEmpty c.registry field ↔
          ReadsNothingAsEmpty c.registry { field with type := a.target } ∧
            ∀ q fallback, a.target ≠ .external q fallback) := by
  have hof := Contract.of_ofDocument h
  have halias : ∀ a, .alias a ∈ doc.declarations →
      (c.registry.isCollection (.declared a.name) = true ↔
        c.registry.isCollection a.target = true ∧
          ∀ q fallback, a.target ≠ .external q fallback) := fun a ha =>
    hof.lawful.isCollection_alias_iff (hof.perm.mem_iff.2 ha)
  refine ⟨fun r => ?_, fun field => readsNothingAsEmpty_iff hof.indexed, fun a ha =>
    ⟨halias a ha, fun field hfield => ?_⟩⟩
  · rw [hof.lawful.isCollection_iff, standsForContainer_iff_of_perm hof.perm,
      hidesFallback_iff_of_perm hof.perm]
  · rw [readsNothingAsEmpty_iff hof.indexed, readsNothingAsEmpty_iff hof.indexed, hfield]
    exact halias a ha

/-- A list, an alias of it, and an alias of an external name whose fallback is the list again, with
an object that has a field of the last. -/
def veiled : Document :=
  ⟨1, [.alias ⟨⟨"m", "Items"⟩, .list (.primitive .string), none⟩,
    .alias ⟨⟨"m", "Page"⟩, .declared ⟨"m", "Items"⟩, none⟩,
    .object ⟨⟨"m", "Sheet"⟩, [⟨"rows", .declared ⟨"m", "Veil"⟩, none, none⟩], none⟩,
    .alias ⟨⟨"m", "Veil"⟩, .external ⟨"x", "Items"⟩ (.declared ⟨"m", "Items"⟩), none⟩]⟩

lemma exists_contract_veiled :
    ∃ c, Contract.ofDocument veiled = .ok c ∧ c.registry = ⟨veiled.declarations⟩ := by
  have hok : (Contract.ofDocument veiled).isOk = true :=
    Contract.isOk_of_ranked (fun _ => 0) (by decide) rfl rfl (by decide)
  obtain ⟨c, hc⟩ := Outcome.exists_ok_of_isOk hok
  exact ⟨c, hc, Contract.registry_of_sorted hc (by decide)⟩

/-- The fallback of an external name is looked through, and then the aliases to the list. -/
theorem isCollection_unless_fallback_hidden_veiled :
    ∃ c, Contract.ofDocument veiled = .ok c ∧
      StandsForContainer veiled.declarations (.external ⟨"x", "Page"⟩ (.declared ⟨"m", "Page"⟩)) ∧
      ReadsNothingAsEmpty c.registry ⟨"rows", .declared ⟨"m", "Page"⟩, none, none⟩ ∧
      ReadsNothingAsEmpty c.registry ⟨"rows", .declared ⟨"m", "Items"⟩, none, none⟩ := by
  obtain ⟨c, hc, hreg⟩ := exists_contract_veiled
  obtain ⟨hcollection, hfields, haliases⟩ := isCollection_unless_fallback_hidden _ _ hc
  have hpage : ReadsNothingAsEmpty c.registry ⟨"rows", .declared ⟨"m", "Page"⟩, none, none⟩ := by
    rw [hfields, hreg]
    decide
  have hmem : .alias ⟨⟨"m", "Page"⟩, .declared ⟨"m", "Items"⟩, none⟩ ∈ veiled.declarations := by
    decide
  refine ⟨c, hc, ((hcollection _).1 ?_).1, hpage, ?_⟩
  · rw [hreg]
    decide
  · exact (((haliases _ hmem).2 _ rfl).1 hpage).1

/-- An alias of an external name stands for the list that its target is found to be, and is not
found to be one: a field of the alias has to be there. -/
theorem isCollection_alias_of_external :
    ∃ c, Contract.ofDocument veiled = .ok c ∧
      .alias ⟨⟨"m", "Veil"⟩, .external ⟨"x", "Items"⟩ (.declared ⟨"m", "Items"⟩), none⟩ ∈
        veiled.declarations ∧
      StandsForContainer veiled.declarations (.declared ⟨"m", "Veil"⟩) ∧
      c.registry.isCollection (.external ⟨"x", "Items"⟩ (.declared ⟨"m", "Items"⟩)) = true ∧
      c.registry.isCollection (.declared ⟨"m", "Veil"⟩) = false ∧
      ReadsNothingAsEmpty c.registry
        ⟨"rows", .external ⟨"x", "Items"⟩ (.declared ⟨"m", "Items"⟩), none, none⟩ ∧
      ¬ ReadsNothingAsEmpty c.registry ⟨"rows", .declared ⟨"m", "Veil"⟩, none, none⟩ := by
  obtain ⟨c, hc, hreg⟩ := exists_contract_veiled
  have hof := Contract.of_ofDocument hc
  have hmem : .alias ⟨⟨"m", "Veil"⟩, .external ⟨"x", "Items"⟩ (.declared ⟨"m", "Items"⟩), none⟩ ∈
      c.registry.declarations := by
    rw [hreg]
    decide
  have htarget : c.registry.isCollection
      (.external ⟨"x", "Items"⟩ (.declared ⟨"m", "Items"⟩)) = true := by
    rw [hreg]
    decide
  have hveil : c.registry.isCollection (.declared ⟨"m", "Veil"⟩) = false := by
    rw [hreg]
    decide
  have hstands := (hof.indexed.standsForContainer_iff_of_step (.target hmem)).2
    (hof.lawful.isCollection_iff.1 htarget).1
  refine ⟨c, hc, hof.perm.mem_iff.1 hmem, (standsForContainer_iff_of_perm hof.perm).1 hstands,
    htarget, hveil, ?_, ?_⟩
  · rw [readsNothingAsEmpty_iff hof.indexed, htarget]
  · rw [readsNothingAsEmpty_iff hof.indexed, hveil]
    decide

end WireContract.Wire
