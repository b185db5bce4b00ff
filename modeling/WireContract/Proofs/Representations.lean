import WireContract.Proofs.AliasOutcomes
import WireContract.Proofs.Boxing

/-!
# What a reference stands for in the end

An external name stands for its fallback and an alias for its target.  From a reference there is
thus one chain, and it has one of two fates.  It ends at a reference that stands for nothing else,
its representation (`RepresentedBy`), or it goes round for ever (`GoesRound`).  A registry is
finite, so there is no third (`Registry.exists_representedBy_or_goesRound`).

In an accepted document no circle consists of aliases of names alone.  But the check for circles
follows an alias only if its target is a name, and an alias of an external name may fall back on
itself (`FallsBackOnItself`): every circle goes through such an alias, and the chains that end are
those that come to none (`alias_represented_iff`).
-/

namespace WireContract.Schema

open Relation

/-! ## The two fates of a chain -/

/-- The chain from a reference ends at another, which stands for nothing else. -/
def RepresentedBy (ds : List Declaration) (r t : TypeRef) : Prop :=
  ReflTransGen (StandsFor ds) r t ∧ ∀ s, ¬ StandsFor ds t s

/-- The chain from a reference comes to something that stands for itself. -/
def GoesRound (ds : List Declaration) (r : TypeRef) : Prop :=
  ∃ t, ReflTransGen (StandsFor ds) r t ∧ TransGen (StandsFor ds) t t

lemma GoesRound.head {ds : List Declaration} {r s : TypeRef}
    (hrs : ReflTransGen (StandsFor ds) r s) (h : GoesRound ds s) : GoesRound ds r := by
  obtain ⟨t, hst, ht⟩ := h
  exact ⟨t, hrs.trans hst, ht⟩

lemma RepresentedBy.head {ds : List Declaration} {r s t : TypeRef}
    (hrs : ReflTransGen (StandsFor ds) r s) (h : RepresentedBy ds s t) : RepresentedBy ds r t :=
  ⟨hrs.trans h.1, h.2⟩

namespace Registry

variable {reg : Registry}

lemma Indexed.representedBy_unique (hreg : reg.Indexed) {r s t : TypeRef}
    (hs : RepresentedBy reg.declarations r s) (ht : RepresentedBy reg.declarations r t) : s = t :=
  eq_of_ends hreg.standsFor_unique hs.1 hs.2 ht.1 ht.2

lemma Indexed.not_goesRound (hreg : reg.Indexed) {r t : TypeRef}
    (h : RepresentedBy reg.declarations r t) : ¬ GoesRound reg.declarations r := by
  rintro ⟨s, hrs, hloop⟩
  exact not_transGen_self_of_end hreg.standsFor_unique h.1 h.2 hrs hloop

/-- A name that is declared as something else than an alias stands for nothing else. -/
lemma Indexed.not_standsFor_of_kind (hreg : reg.Indexed) {d : Declaration}
    (hd : d ∈ reg.declarations) (hkind : d.kind ≠ .alias) {s : TypeRef} :
    ¬ StandsFor reg.declarations (.declared d.name) s := by
  intro h
  generalize hname : TypeRef.declared d.name = r at h
  cases h with
  | fallback => cases hname
  | @target a ha =>
    have hda : d = .alias a := hreg.eq_of_name_eq hd ha (TypeRef.declared.inj hname)
    rw [hda] at hkind
    exact hkind rfl

/-- What is behind the external names of a reference goes on only as an alias. -/
lemma alias_of_standsFor {ds : List Declaration} {r s : TypeRef}
    (h : StandsFor ds r.withoutExternals s) :
    ∃ a, .alias a ∈ ds ∧ r.withoutExternals = .declared a.name ∧ s = a.target := by
  generalize hr : r.withoutExternals = r' at h
  cases h with
  | fallback q => exact (withoutExternals_ne_external r s q hr).elim
  | @target a ha => exact ⟨a, ha, rfl, rfl⟩

/-- What holds when a chain has come to a reference through the aliases `passed`. -/
structure Passed (reg : Registry) (passed : List QualifiedName) (r : TypeRef) : Prop where
  nodup : passed.Nodup
  declared : ∀ q ∈ passed, ∃ d ∈ reg.declarations, d.name = q
  leads : ∀ q ∈ passed, TransGen (StandsFor reg.declarations) (.declared q) r

namespace Passed

variable {passed : List QualifiedName} {r : TypeRef} {a : Alias}

lemma init (reg : Registry) (r : TypeRef) : reg.Passed [] r where
  nodup := List.nodup_nil
  declared := fun _ hq => (List.not_mem_nil hq).elim
  leads := fun _ hq => (List.not_mem_nil hq).elim

lemma length_le (h : reg.Passed passed r) : passed.length ≤ reg.size :=
  length_le_size h.nodup h.declared

lemma step (h : reg.Passed passed r) (ha : .alias a ∈ reg.declarations)
    (hr : ReflTransGen (StandsFor reg.declarations) r (.declared a.name))
    (hfresh : a.name ∉ passed) : reg.Passed (a.name :: passed) a.target where
  nodup := List.nodup_cons.2 ⟨hfresh, h.nodup⟩
  declared := List.forall_mem_cons.2 ⟨⟨_, ha, rfl⟩, h.declared⟩
  leads := List.forall_mem_cons.2
    ⟨.single (.target ha), fun q hq => ((h.leads q hq).trans_left hr).tail (.target ha)⟩

end Passed

/-- Behind the external names of a reference the chain ends, meets an alias that it has passed, or
enters one that it has not. -/
lemma Passed.ends_or_enters {passed : List QualifiedName} {r : TypeRef} (h : reg.Passed passed r) :
    (∃ t, RepresentedBy reg.declarations r t) ∨ GoesRound reg.declarations r ∨
      ∃ a : Alias, ReflTransGen (StandsFor reg.declarations) r a.target ∧
        reg.Passed (a.name :: passed) a.target := by
  have hchain := standsFor_withoutExternals reg r
  by_cases hend : ∃ s, StandsFor reg.declarations r.withoutExternals s
  · obtain ⟨s, hs⟩ := hend
    obtain ⟨a, ha, hr, -⟩ := alias_of_standsFor hs
    rw [hr] at hchain
    by_cases hmem : a.name ∈ passed
    · exact .inr (.inl ⟨_, hchain, (h.leads _ hmem).trans_left hchain⟩)
    · exact .inr (.inr ⟨a, hchain.tail (.target ha), h.step ha hchain hmem⟩)
  · exact .inl ⟨_, hchain, not_exists.1 hend⟩

/-- A chain ends or goes round, whatever it has passed: there are fewer and fewer aliases left to
enter. -/
lemma Passed.exists_representedBy_or_goesRound {passed : List QualifiedName} {r : TypeRef}
    (h : reg.Passed passed r) :
    (∃ t, RepresentedBy reg.declarations r t) ∨ GoesRound reg.declarations r := by
  induction hleft : reg.size - passed.length using Nat.strong_induction_on
    generalizing passed r with
  | _ left ih =>
    rcases h.ends_or_enters with hend | hround | ⟨a, hra, hnext⟩
    · exact .inl hend
    · exact .inr hround
    · have hle := hnext.length_le
      rw [List.length_cons] at hle
      have hless : reg.size - (a.name :: passed).length < left := by
        rw [List.length_cons]
        omega
      rcases ih _ hless hnext rfl with ⟨t, ht⟩ | hround
      · exact .inl ⟨t, ht.head hra⟩
      · exact .inr (hround.head hra)

/-- Every chain of a registry ends or goes round. -/
theorem exists_representedBy_or_goesRound (reg : Registry) (r : TypeRef) :
    (∃ t, RepresentedBy reg.declarations r t) ∨ GoesRound reg.declarations r :=
  (Passed.init reg r).exists_representedBy_or_goesRound

end Registry

/-! ## Circles -/

/-- An alias of an external name whose fallback leads back to the alias. -/
def FallsBackOnItself (ds : List Declaration) (a : Alias) : Prop :=
  ∃ q fallback, a.target = .external q fallback ∧
    ReflTransGen (StandsFor ds) fallback (.declared a.name)

lemma FallsBackOnItself.transGen_self {ds : List Declaration} {a : Alias} (ha : .alias a ∈ ds)
    (h : FallsBackOnItself ds a) :
    TransGen (StandsFor ds) (.declared a.name) (.declared a.name) := by
  obtain ⟨q, fallback, htarget, hback⟩ := h
  refine .head' (.target ha) ?_
  rw [htarget]
  exact .head (.fallback q fallback) hback

/-- What a target leads to is reached by aliases of names alone, or past an alias of an external
name. -/
lemma aliasSteps_or_fallback {ds : List Declaration} {a : Alias} (ha : .alias a ∈ ds)
    {p : QualifiedName} (h : ReflTransGen (StandsFor ds) a.target (.declared p)) :
    TransGen (AliasStep ds) a.name p ∨
      ∃ b q fallback, .alias b ∈ ds ∧ b.target = .external q fallback ∧
        ReflTransGen (StandsFor ds) (.declared a.name) (.declared b.name) ∧
        ReflTransGen (StandsFor ds) fallback (.declared p) := by
  generalize htarget : a.target = r at h
  induction h using ReflTransGen.head_induction_on generalizing a with
  | refl => exact .inl (.single ⟨a, ha, rfl, htarget⟩)
  | @head r s hrs hsp ih =>
    cases hrs with
    | fallback q => exact .inr ⟨a, q, s, ha, htarget, .refl, hsp⟩
    | @target b hb =>
      have hstep : StandsFor ds (.declared a.name) (.declared b.name) := htarget ▸ .target ha
      rcases ih hb rfl with hsteps | ⟨c, q, fallback, hc, hfallback, hbc, hback⟩
      · exact .inl (.head ⟨a, ha, rfl, htarget⟩ hsteps)
      · exact .inr ⟨c, q, fallback, hc, hfallback, .head hstep hbc, hback⟩

namespace Lawful

variable {ds : List Declaration}

/-- A circle of an accepted document goes through an alias that falls back on itself. -/
lemma exists_fallsBackOnItself (hlawful : Lawful ds) {p : QualifiedName}
    (h : TransGen (StandsFor ds) (.declared p) (.declared p)) :
    ∃ b, .alias b ∈ ds ∧ FallsBackOnItself ds b ∧
      ReflTransGen (StandsFor ds) (.declared p) (.declared b.name) ∧
      ReflTransGen (StandsFor ds) (.declared b.name) (.declared p) := by
  obtain ⟨s, hstep, hback⟩ := TransGen.head'_iff.1 h
  generalize hp : TypeRef.declared p = r at hstep
  cases hstep with
  | fallback => cases hp
  | @target a ha =>
    obtain rfl := TypeRef.declared.inj hp
    rcases aliasSteps_or_fallback ha hback with hcycle | ⟨b, q, fallback, hb, htarget, hab, hfall⟩
    · exact (hlawful.aliases _ hcycle).elim
    · have hba : ReflTransGen (StandsFor ds) (.declared b.name) (.declared a.name) := by
        refine .head (.target hb) ?_
        rw [htarget]
        exact .head (.fallback q fallback) hfall
      exact ⟨b, hb, ⟨q, fallback, htarget, hfall.trans hab⟩, hab, hba⟩

/-- A chain of an accepted document goes round exactly if it comes to an alias that falls back on
itself. -/
lemma goesRound_iff (hlawful : Lawful ds) {r : TypeRef} :
    GoesRound ds r ↔ ∃ b, .alias b ∈ ds ∧ FallsBackOnItself ds b ∧
      ReflTransGen (StandsFor ds) r (.declared b.name) := by
  have hreg : Registry.Indexed ⟨ds⟩ := hlawful.distinct
  constructor
  · rintro ⟨t, hrt, hloop⟩
    -- the circle does not consist of external names alone, since each has its fallback inside
    have hchain := Registry.standsFor_withoutExternals ⟨ds⟩ t
    have hcore := transGen_self_of_reflTransGen hreg.standsFor_unique hchain hloop
    obtain ⟨s, hstep, -⟩ := TransGen.head'_iff.1 hcore
    obtain ⟨a, -, ht, -⟩ := Registry.alias_of_standsFor hstep
    rw [ht] at hchain hcore
    obtain ⟨b, hb, hself, hab, -⟩ := hlawful.exists_fallsBackOnItself hcore
    exact ⟨b, hb, hself, (hrt.trans hchain).trans hab⟩
  · rintro ⟨b, hb, hself, hrb⟩
    exact ⟨_, hrb, hself.transGen_self hb⟩

end Lawful

/-- What stands for a name holds something in place that gets to the name. -/
lemma exists_holdsInPlace {ds : List Declaration} {r : TypeRef} {p : QualifiedName}
    (h : ReflTransGen (StandsFor ds) r (.declared p)) :
    ∃ q, r.HoldsInPlace q ∧ ReflTransGen (HeldIn ds) q p := by
  induction h using ReflTransGen.head_induction_on with
  | refl => exact ⟨p, .declared p, .refl⟩
  | @head r s hrs _ ih =>
    obtain ⟨q, hq, hqp⟩ := ih
    cases hrs with
    | fallback name => exact ⟨q, .external name hq, hqp⟩
    | @target a ha =>
      refine ⟨a.name, .declared a.name, .head ?_ hqp⟩
      exact ⟨_, ha, rfl, "", a.target, List.mem_singleton_self _, hq⟩

/-- An alias that falls back on itself is emitted around a box of itself. -/
lemma Contract.Of.isBoxed_of_fallsBackOnItself {c : Contract} {doc : Document} (hof : c.Of doc)
    {a : Alias} (ha : .alias a ∈ doc.declarations)
    (h : FallsBackOnItself doc.declarations a) : c.isBoxed a.name "" = true := by
  obtain ⟨name, fallback, htarget, hback⟩ := h
  obtain ⟨q, hq, hheld⟩ := exists_holdsInPlace hback
  have hr : ("", a.target) ∈ (Declaration.alias a).references := List.mem_singleton_self _
  refine (hof.isBoxed_slot_iff ha hr).2 ⟨q, ?_, hheld⟩
  rw [htarget]
  exact .external name hq

/-! ## Representations -/

/-- Neither external nor an alias: what values are made of. -/
inductive Concrete (ds : List Declaration) : TypeRef → Prop where
  | primitive (p : Primitive) : Concrete ds (.primitive p)
  | binary : Concrete ds .binary
  | optional (inner : TypeRef) : Concrete ds (.optional inner)
  | list (item : TypeRef) : Concrete ds (.list item)
  | set (item : TypeRef) : Concrete ds (.set item)
  | map (key value : TypeRef) : Concrete ds (.map key value)
  | enum {e : Enum} (he : .enum e ∈ ds) : Concrete ds (.declared e.name)
  | object {o : Object} (ho : .object o ∈ ds) : Concrete ds (.declared o.name)
  | union {u : Union} (hu : .union u ∈ ds) : Concrete ds (.declared u.name)

lemma StandsFor.leads {ds : List Declaration} {r s : TypeRef} (h : StandsFor ds r s) :
    Leads ds r s := by
  cases h with
  | fallback q => exact .part (by simp [TypeRef.subterms])
  | target ha => exact .enter ha (List.mem_singleton_self _)

/-- Where names are declared as types, what a reference stands for in the end is concrete. -/
lemma Lawful.concrete_of_representedBy {ds : List Declaration} (hlawful : Lawful ds)
    {r t : TypeRef} (hr : Occurs ds r) (h : RepresentedBy ds r t) : Concrete ds t := by
  have ht : Occurs ds t := hr.chain (ReflTransGen.mono (fun _ _ => StandsFor.leads) _ _ h.1)
  cases t with
  | primitive p => exact .primitive p
  | binary => exact .binary
  | optional inner => exact .optional inner
  | list item => exact .list item
  | set item => exact .set item
  | map key value => exact .map key value
  | external q fallback => exact (h.2 _ (.fallback q fallback)).elim
  | declared q =>
    obtain ⟨d, hd, rfl, hkind⟩ := hlawful.declared q ht
    cases d with
    | «alias» a => exact (h.2 _ (.target hd)).elim
    | enum e => exact .enum hd
    | object o => exact .object hd
    | union u => exact .union hd
    | error e => exact (hkind rfl).elim

/-- In every accepted document, an alias has one representation, which is concrete, exactly if it
comes to no alias of an external name that falls back on itself.  Only past such an alias does it
stand for itself, and the circle is not refused but closed by a box. -/
theorem alias_represented_iff (doc : Document) (c : Contract)
    (h : Contract.ofDocument doc = .ok c) (a : Alias) (ha : .alias a ∈ doc.declarations) :
    ((∃! t, RepresentedBy doc.declarations (.declared a.name) t) ↔
      ∀ b, .alias b ∈ doc.declarations →
        ReflTransGen (StandsFor doc.declarations) (.declared a.name) (.declared b.name) →
        ¬ FallsBackOnItself doc.declarations b) ∧
    (∀ t, RepresentedBy doc.declarations (.declared a.name) t → Concrete doc.declarations t) ∧
    (TransGen (StandsFor doc.declarations) (.declared a.name) (.declared a.name) ↔
      ∃ b, .alias b ∈ doc.declarations ∧ FallsBackOnItself doc.declarations b ∧
        ReflTransGen (StandsFor doc.declarations) (.declared a.name) (.declared b.name) ∧
        ReflTransGen (StandsFor doc.declarations) (.declared b.name) (.declared a.name)) ∧
    (FallsBackOnItself doc.declarations a → c.isBoxed a.name "" = true) := by
  have hof := Contract.of_ofDocument h
  have hlawful : Lawful doc.declarations := hof.lawful.perm hof.perm
  have hreg : Registry.Indexed ⟨doc.declarations⟩ := hlawful.distinct
  refine ⟨⟨?_, fun hnone => ?_⟩, fun t ht => ?_, ⟨?_, ?_⟩, ?_⟩
  · rintro ⟨t, ht, -⟩ b hb hab hself
    exact hreg.not_goesRound ht (hlawful.goesRound_iff.2 ⟨b, hb, hself, hab⟩)
  · rcases Registry.exists_representedBy_or_goesRound ⟨doc.declarations⟩ (.declared a.name) with
      ⟨t, ht⟩ | hround
    · exact ⟨t, ht, fun s hs => hreg.representedBy_unique hs ht⟩
    · obtain ⟨b, hb, hself, hab⟩ := hlawful.goesRound_iff.1 hround
      exact (hnone b hb hab hself).elim
  · -- the name of an alias need not occur in any reference, but its target does
    rcases ht.1.cases_head with rfl | ⟨s, hs, hst⟩
    · exact (ht.2 _ (.target ha)).elim
    · obtain rfl := hreg.standsFor_unique hs (.target ha)
      have hoccurs : Occurs doc.declarations a.target :=
        ⟨_, ha, "", a.target, List.mem_singleton_self _, TypeRef.self_mem_subterms _⟩
      exact hlawful.concrete_of_representedBy hoccurs ⟨hst, ht.2⟩
  · exact hlawful.exists_fallsBackOnItself
  · rintro ⟨b, hb, hself, hab, hba⟩
    exact ((hself.transGen_self hb).trans_left hba).trans_right hab
  · exact hof.isBoxed_of_fallsBackOnItself ha

/-- An alias of an external name whose fallback is an enumeration, and two aliases that stand for
each other, one of them through a fallback. -/
def knotted : Document :=
  ⟨1, [.alias ⟨⟨"m", "Ink"⟩, .external ⟨"x", "Ink"⟩ (.declared ⟨"m", "Shade"⟩), none⟩,
    .alias ⟨⟨"m", "Knot"⟩, .declared ⟨"m", "Loop"⟩, none⟩,
    .alias ⟨⟨"m", "Loop"⟩, .external ⟨"x", "Loop"⟩ (.declared ⟨"m", "Knot"⟩), none⟩,
    .enum ⟨⟨"m", "Shade"⟩, [⟨"DARK", none⟩], none⟩]⟩

lemma exists_contract_knotted : ∃ c, Contract.ofDocument knotted = .ok c :=
  Outcome.exists_ok_of_isOk (Contract.isOk_of_ranked (fun _ => 0) (by decide) rfl rfl (by decide))

/-- The fallback is followed to the enumeration, which is what the alias stands for. -/
theorem alias_represented_iff_knotted :
    ∃ c, Contract.ofDocument knotted = .ok c ∧
      .alias ⟨⟨"m", "Ink"⟩, .external ⟨"x", "Ink"⟩ (.declared ⟨"m", "Shade"⟩), none⟩ ∈
        knotted.declarations ∧
      RepresentedBy knotted.declarations (.declared ⟨"m", "Ink"⟩) (.declared ⟨"m", "Shade"⟩) ∧
      Concrete knotted.declarations (.declared ⟨"m", "Shade"⟩) := by
  obtain ⟨c, hc⟩ := exists_contract_knotted
  have hink : .alias ⟨⟨"m", "Ink"⟩, .external ⟨"x", "Ink"⟩ (.declared ⟨"m", "Shade"⟩), none⟩ ∈
      knotted.declarations := by decide
  obtain ⟨-, hconcrete, -⟩ := alias_represented_iff _ _ hc _ hink
  have hrepresented :
      RepresentedBy knotted.declarations (.declared ⟨"m", "Ink"⟩) (.declared ⟨"m", "Shade"⟩) := by
    have hof := Contract.of_ofDocument hc
    have hreg : Registry.Indexed ⟨knotted.declarations⟩ := (hof.lawful.perm hof.perm).distinct
    have hshade : .enum ⟨⟨"m", "Shade"⟩, [⟨"DARK", none⟩], none⟩ ∈ knotted.declarations := by decide
    refine ⟨.head (.target hink) (.single (.fallback _ _)), fun s => ?_⟩
    exact hreg.not_standsFor_of_kind hshade (by decide)
  exact ⟨c, hc, hink, hrepresented, hconcrete _ hrepresented⟩

/-- The document with the knot is accepted, although one of its aliases stands for itself past the
other.  It has no representation, and it is emitted around a box of the other. -/
theorem alias_stands_for_itself :
    ∃ c, Contract.ofDocument knotted = .ok c ∧
      .alias ⟨⟨"m", "Loop"⟩, .external ⟨"x", "Loop"⟩ (.declared ⟨"m", "Knot"⟩), none⟩ ∈
        knotted.declarations ∧
      TransGen (StandsFor knotted.declarations) (.declared ⟨"m", "Loop"⟩)
        (.declared ⟨"m", "Loop"⟩) ∧
      (¬ ∃ t, RepresentedBy knotted.declarations (.declared ⟨"m", "Loop"⟩) t) ∧
      c.isBoxed ⟨"m", "Loop"⟩ "" = true := by
  obtain ⟨c, hc⟩ := exists_contract_knotted
  have hof := Contract.of_ofDocument hc
  have hloop : .alias ⟨⟨"m", "Loop"⟩, .external ⟨"x", "Loop"⟩ (.declared ⟨"m", "Knot"⟩), none⟩ ∈
      knotted.declarations := by decide
  have hknot : .alias ⟨⟨"m", "Knot"⟩, .declared ⟨"m", "Loop"⟩, none⟩ ∈ knotted.declarations := by
    decide
  have hself : FallsBackOnItself knotted.declarations
      ⟨⟨"m", "Loop"⟩, .external ⟨"x", "Loop"⟩ (.declared ⟨"m", "Knot"⟩), none⟩ :=
    ⟨_, _, rfl, .single (.target hknot)⟩
  have hround := hself.transGen_self hloop
  refine ⟨c, hc, hloop, hround, ?_, hof.isBoxed_of_fallsBackOnItself hloop hself⟩
  rintro ⟨t, ht⟩
  have hreg : Registry.Indexed ⟨knotted.declarations⟩ := (hof.lawful.perm hof.perm).distinct
  exact hreg.not_goesRound ht ⟨_, .refl, hround⟩

end WireContract.Schema
