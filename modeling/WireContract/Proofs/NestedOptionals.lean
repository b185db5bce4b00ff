import WireContract.Emit.Slot
import WireContract.Proofs.Collections
import WireContract.Proofs.Representations

/-!
# Optionals inside optionals

A value that may be absent is written as null when it is.  Inside a second optional there is a
second way to be absent, which is written as null too, and null is read as the first.  The check of
a declaration refuses an optional that stands directly inside another, and looks no further: an
optional may still hold another behind an external name or behind an alias (`optional_nests_iff`).

The form of a reference counts the optionals around a value, whether they are written there, fallen
back on or come from an alias (`optionals_pos_iff`).  So it also gives the ways to be absent
(`Form.absents`), of which only the first is read back (`decode_encode_of_mem_absents`).
-/

namespace WireContract.Schema

open Relation

/-- Stands, through aliases and external fallbacks, for an optional. -/
def StandsForOptional (ds : List Declaration) (r : TypeRef) : Prop :=
  ∃ inner, ReflTransGen (StandsFor ds) r (.optional inner)

section Steps

variable {reg : Registry} {r s : TypeRef}

lemma not_standsFor_optional {ds : List Declaration} {inner : TypeRef} :
    ¬ StandsFor ds (.optional inner) s := by
  intro h
  cases h

lemma standsForOptional_optional {ds : List Declaration} (inner : TypeRef) :
    StandsForOptional ds (.optional inner) :=
  ⟨inner, .refl⟩

lemma Registry.Indexed.standsForOptional_iff_of_step (hreg : reg.Indexed)
    (h : StandsFor reg.declarations r s) :
    StandsForOptional reg.declarations r ↔ StandsForOptional reg.declarations s :=
  exists_congr fun _ =>
    reflTransGen_iff_of_step hreg.standsFor_unique h fun _ => not_standsFor_optional

lemma Registry.Indexed.standsForOptional_withoutExternals (hreg : reg.Indexed) :
    StandsForOptional reg.declarations r.withoutExternals ↔
      StandsForOptional reg.declarations r := by
  induction r with
  | external q fallback ih =>
    rw [hreg.standsForOptional_iff_of_step (.fallback q fallback)]
    exact ih
  | _ => rfl

/-- What stands for nothing else stands for an optional only if it is one. -/
lemma not_standsForOptional_of_end {ds : List Declaration} (hend : ∀ s, ¬ StandsFor ds r s)
    (hr : ∀ inner, r ≠ .optional inner) : ¬ StandsForOptional ds r := by
  rintro ⟨inner, h⟩
  exact hr inner ((reflTransGen_iff_eq hend).1 h).symm

/-- A reference stands for an optional if that is what is behind its external names, or if an alias
is that does. -/
lemma Registry.Indexed.standsForOptional_iff (hreg : reg.Indexed) :
    StandsForOptional reg.declarations r ↔
      (∃ inner, r.withoutExternals = .optional inner) ∨
      ∃ a, .alias a ∈ reg.declarations ∧ r.withoutExternals = .declared a.name ∧
        StandsForOptional reg.declarations a.target := by
  rw [← hreg.standsForOptional_withoutExternals]
  constructor
  · rintro ⟨inner, h⟩
    rcases h.cases_head with heq | ⟨s, hs, hsi⟩
    · exact .inl ⟨inner, heq⟩
    · obtain ⟨a, ha, hr, rfl⟩ := Registry.alias_of_standsFor hs
      exact .inr ⟨a, ha, hr, inner, hsi⟩
  · rintro (⟨inner, hr⟩ | ⟨a, ha, hr, hstands⟩)
    · rw [hr]
      exact standsForOptional_optional inner
    · rw [hr, hreg.standsForOptional_iff_of_step (.target ha)]
      exact hstands

lemma standsForOptional_iff_of_perm {ds ds' : List Declaration} (hperm : ds.Perm ds') :
    StandsForOptional ds r ↔ StandsForOptional ds' r := by
  rw [StandsForOptional, StandsForOptional, standsFor_eq_of_perm hperm]

end Steps

namespace TypeRef

/-- External, with an optional behind its external names. -/
def FallsBackOnOptional (r : TypeRef) : Prop :=
  ∃ q fallback inner, r = .external q fallback ∧ fallback.withoutExternals = .optional inner

variable {r : TypeRef}

lemma withoutExternals_eq_optional_iff :
    (∃ inner, r.withoutExternals = .optional inner) ↔
      (∃ inner, r = .optional inner) ∨ r.FallsBackOnOptional := by
  cases r <;> simp [withoutExternals, FallsBackOnOptional]

/-- A slot stores an option exactly if an optional is behind the external names of its reference. -/
lemma exists_stored_eq_option_iff (boxed : Bool) :
    (∃ content, r.stored boxed = .option content) ↔
      ∃ inner, r.withoutExternals = .optional inner := by
  induction r with
  | external q fallback ih => exact ih
  | optional inner => exact ⟨fun _ => ⟨inner, rfl⟩, fun _ => ⟨_, rfl⟩⟩
  | declared q => cases boxed <;> simp [stored, withoutExternals]
  | primitive | binary | list | set | map => simp [stored, withoutExternals]

end TypeRef

end WireContract.Schema

namespace WireContract.Wire

open Emit Json Schema Relation

/-! ## Optionals of a form -/

section Forms

variable {reg : Registry} {r : TypeRef}

lemma peel_withoutExternals (r : TypeRef) : peel r.withoutExternals = peel r := by
  induction r with
  | external q fallback ih => exact ih
  | _ => rfl

lemma formWithin_withoutExternals (fuel : ℕ) :
    formWithin reg fuel r.withoutExternals = formWithin reg fuel r := by
  cases fuel with
  | zero => rfl
  | succ fuel => rw [formWithin, formWithin, peel_withoutExternals]

/-- An optional adds one to the optionals of the form. -/
lemma formWithin_optional (fuel : ℕ) :
    formWithin reg fuel (.optional r) =
      (formWithin reg fuel r).map fun f => ⟨f.optionals + 1, f.base⟩ := by
  cases fuel with
  | zero => rfl
  | succ fuel =>
    rw [formWithin, formWithin, peel]
    generalize peel r = p
    obtain ⟨n, core⟩ := p
    cases core with
    | declared q =>
      dsimp only
      cases reg.get? q with
      | none => rfl
      | some d =>
        cases d with
        | «alias» a => simp [Function.comp_def, Nat.add_right_comm]
        | enum | object | union | error => rfl
    | _ => rfl

/-- There are optionals around the values of a reference exactly if it stands for one. -/
lemma optionals_pos_iff (hreg : reg.Indexed) {fuel : ℕ} {f : Form}
    (hform : formWithin reg fuel r = some f) :
    0 < f.optionals ↔ StandsForOptional reg.declarations r := by
  induction fuel generalizing r f with
  | zero => cases hform
  | succ fuel ih =>
    rw [← formWithin_withoutExternals] at hform
    rw [← hreg.standsForOptional_withoutExternals]
    generalize hr : r.withoutExternals = core at hform
    cases core with
    | external q fallback => exact (Registry.withoutExternals_ne_external r fallback q hr).elim
    | optional inner =>
      rw [formWithin_optional] at hform
      obtain ⟨g, -, rfl⟩ := Option.map_eq_some_iff.1 hform
      simp [standsForOptional_optional]
    | declared q =>
      rw [formWithin] at hform
      dsimp only [peel] at hform
      cases hget : reg.get? q with
      | none =>
        rw [hget] at hform
        cases hform
      | some d =>
        obtain ⟨hd, rfl⟩ := Registry.mem_of_get? hget
        rw [hget] at hform
        cases d with
        | «alias» a =>
          obtain ⟨g, hg, rfl⟩ := Option.map_eq_some_iff.1 hform
          rw [Nat.zero_add, ih hg]
          exact (hreg.standsForOptional_iff_of_step (.target hd)).symm
        | enum | object | union =>
          obtain rfl := Option.some.inj hform
          refine iff_of_false (lt_irrefl _) (not_standsForOptional_of_end (fun s => ?_) (by simp))
          exact hreg.not_standsFor_of_kind hd (by simp [Declaration.kind])
        | error => cases hform
    | primitive | binary | list | set | map =>
      obtain rfl := Option.some.inj hform
      refine iff_of_false (lt_irrefl _) (not_standsForOptional_of_end (fun s hs => ?_) (by simp))
      cases hs

end Forms

/-! ## Ways to be absent -/

/-- The values of a form that are absent in one of its optionals, from the outermost on. -/
def Form.absents (f : Form) : List Value :=
  (List.range f.optionals).map fun k => Value.wrapped k .absent

lemma Form.exists_ne_absent_iff {f : Form} :
    (∃ v ∈ f.absents, v ≠ .absent) ↔ 1 < f.optionals := by
  simp only [Form.absents, List.mem_map, List.mem_range, exists_exists_and_eq_and]
  constructor
  · rintro ⟨k, hk, hne⟩
    cases k with
    | zero => exact (hne rfl).elim
    | succ k => omega
  · intro h
    exact ⟨1, h, Value.noConfusion⟩

section Absents

variable {reg : Registry} {r : TypeRef} {f : Form}

lemma encodeBase_wrapped_absent (b : Base) (k : ℕ) :
    encodeBase reg b (Value.wrapped k .absent) = .null := by
  induction k with
  | zero => rw [Value.wrapped, encodeBase]
  | succ k ih => rw [Value.wrapped, encodeBase, ih]

/-- Wherever a value is absent, it is read back as absent in the outermost optional. -/
lemma decode_encode_of_mem_absents (hform : form? reg r = some f) {v : Value}
    (hv : v ∈ f.absents) : readValue (decode reg r) (encode reg r v) = .ok .absent := by
  obtain ⟨k, hk, rfl⟩ := List.mem_map.1 hv
  obtain ⟨n, b⟩ := f
  cases n with
  | zero => simp at hk
  | succ n =>
    rw [encode, encodeBase_wrapped_absent, readValue, decode, hform]
    exact decodeForm_null (Nat.succ_pos _) n b

/-- An optional has a second way to be absent exactly if what it holds stands for an optional. -/
lemma exists_ne_absent_optional_iff (hreg : reg.Indexed)
    (hform : form? reg (.optional r) = some f) :
    (∃ v ∈ f.absents, v ≠ .absent) ↔ StandsForOptional reg.declarations r := by
  rw [form?, formWithin_optional] at hform
  obtain ⟨g, hg, rfl⟩ := Option.map_eq_some_iff.1 hform
  rw [Form.exists_ne_absent_iff, ← optionals_pos_iff hreg hg]
  exact Nat.lt_add_left_iff_pos

end Absents

/-! ## Optionals of a contract -/

/-- In every accepted document, an optional does not hold an optional directly, but it does hold one
exactly if there is one behind an external name, where the stored type shows it, or behind an alias.
Then it has more than one absent value, and all of them are read back as one. -/
theorem optional_nests_iff (doc : Document) (c : Contract) (h : Contract.ofDocument doc = .ok c)
    (t : TypeRef) (ht : Occurs doc.declarations (.optional t)) :
    (∀ inner, t ≠ .optional inner) ∧
    (StandsForOptional doc.declarations t ↔ t.FallsBackOnOptional ∨
      ∃ a, .alias a ∈ doc.declarations ∧ t.withoutExternals = .declared a.name ∧
        StandsForOptional doc.declarations a.target) ∧
    (∀ boxed, (∃ content, (TypeRef.optional t).stored boxed = .option (.option content)) ↔
      t.FallsBackOnOptional) ∧
    ∀ f, form? c.registry (.optional t) = some f →
      ((∃ v ∈ f.absents, v ≠ .absent) ↔ StandsForOptional doc.declarations t) ∧
      ∀ v ∈ f.absents,
        readValue (decode c.registry (.optional t)) (encode c.registry (.optional t) v) =
          .ok .absent := by
  have hof := Contract.of_ofDocument h
  have hlawful : Lawful doc.declarations := hof.lawful.perm hof.perm
  have hdirect : ∀ inner, t ≠ .optional inner := by
    rintro inner rfl
    obtain ⟨d, hd, hrefers⟩ := ht
    exact (hlawful.wellFormed d hd).optionals inner hrefers
  have hbehind : (∃ inner, t.withoutExternals = .optional inner) ↔ t.FallsBackOnOptional := by
    rw [TypeRef.withoutExternals_eq_optional_iff, or_iff_right]
    exact not_exists.2 hdirect
  refine ⟨hdirect, ?_, fun boxed => ?_, fun f hform => ⟨?_, fun v hv => ?_⟩⟩
  · have hreg : Registry.Indexed ⟨doc.declarations⟩ := hlawful.distinct
    rw [← hbehind]
    exact hreg.standsForOptional_iff
  · rw [← hbehind, ← TypeRef.exists_stored_eq_option_iff boxed]
    simp only [TypeRef.stored, Stored.option.injEq]
  · rw [exists_ne_absent_optional_iff hof.indexed hform, standsForOptional_iff_of_perm hof.perm]
  · exact decode_encode_of_mem_absents hform hv

/-- An alias of an optional, and an object with an optional of it and an optional of an external
name that falls back on another. -/
def doubled : Document :=
  ⟨1, [.alias ⟨⟨"m", "Maybe"⟩, .optional (.primitive .string), none⟩,
    .object ⟨⟨"m", "Note"⟩,
      [⟨"text", .optional (.external ⟨"x", "Text"⟩ (.optional (.primitive .string))), none, none⟩,
        ⟨"title", .optional (.declared ⟨"m", "Maybe"⟩), none, none⟩], none⟩]⟩

lemma exists_contract_doubled :
    ∃ c, Contract.ofDocument doubled = .ok c ∧ c.registry = ⟨doubled.declarations⟩ := by
  have hok : (Contract.ofDocument doubled).isOk = true :=
    Contract.isOk_of_ranked (fun _ => 0) (by decide) rfl rfl (by decide)
  obtain ⟨c, hc⟩ := Outcome.exists_ok_of_isOk hok
  exact ⟨c, hc, Contract.registry_of_sorted hc (by decide)⟩

/-- The optional of the alias stores one option around a declared type, but a value of it that is
present may be absent still. -/
theorem optional_nests_iff_doubled :
    ∃ c, Contract.ofDocument doubled = .ok c ∧
      Occurs doubled.declarations (.optional (.declared ⟨"m", "Maybe"⟩)) ∧
      StandsForOptional doubled.declarations (.declared ⟨"m", "Maybe"⟩) ∧
      form? c.registry (.optional (.declared ⟨"m", "Maybe"⟩)) = some ⟨2, .primitive .string⟩ ∧
      ∃ v ∈ (⟨2, .primitive .string⟩ : Form).absents, v ≠ .absent ∧
        readValue (decode c.registry (.optional (.declared ⟨"m", "Maybe"⟩)))
          (encode c.registry (.optional (.declared ⟨"m", "Maybe"⟩)) v) = .ok .absent := by
  obtain ⟨c, hc, hreg⟩ := exists_contract_doubled
  have hoccurs : Occurs doubled.declarations (.optional (.declared ⟨"m", "Maybe"⟩)) :=
    ⟨_, List.mem_cons_of_mem _ List.mem_cons_self, "title", _,
      List.mem_cons_of_mem _ List.mem_cons_self, TypeRef.self_mem_subterms _⟩
  have hform : form? c.registry (.optional (.declared ⟨"m", "Maybe"⟩)) =
      some ⟨2, .primitive .string⟩ := by
    rw [hreg]
    decide
  obtain ⟨-, hstands, -, hvalues⟩ := optional_nests_iff _ _ hc _ hoccurs
  obtain ⟨hsecond, hread⟩ := hvalues _ hform
  have hmaybe : StandsForOptional doubled.declarations (.declared ⟨"m", "Maybe"⟩) :=
    hstands.2 (.inr ⟨_, List.mem_cons_self, rfl, standsForOptional_optional _⟩)
  obtain ⟨v, hv, hne⟩ := hsecond.2 hmaybe
  exact ⟨c, hc, hoccurs, hmaybe, hform, v, hv, hne, hread v hv⟩

/-- The document is accepted, although an external name in it stores an option inside an option.
The value that is present and absent inside is read back as the one that is absent. -/
theorem optional_stores_optional :
    ∃ c, Contract.ofDocument doubled = .ok c ∧
      Occurs doubled.declarations
        (.optional (.external ⟨"x", "Text"⟩ (.optional (.primitive .string)))) ∧
      StandsForOptional doubled.declarations
        (.external ⟨"x", "Text"⟩ (.optional (.primitive .string))) ∧
      (TypeRef.optional (.external ⟨"x", "Text"⟩ (.optional (.primitive .string)))).stored false =
        .option (.option (.primitive .string)) ∧
      readValue
        (decode c.registry (.optional (.external ⟨"x", "Text"⟩ (.optional (.primitive .string)))))
        (encode c.registry (.optional (.external ⟨"x", "Text"⟩ (.optional (.primitive .string))))
          (.present .absent)) = .ok .absent := by
  obtain ⟨c, hc, -⟩ := exists_contract_doubled
  refine ⟨c, hc, ?_, ⟨_, .single (.fallback _ _)⟩, rfl, ?_⟩
  · exact ⟨_, List.mem_cons_of_mem _ List.mem_cons_self, "text", _, List.mem_cons_self,
      TypeRef.self_mem_subterms _⟩
  · have hform : form? c.registry
        (.optional (.external ⟨"x", "Text"⟩ (.optional (.primitive .string)))) =
          some ⟨2, .primitive .string⟩ := rfl
    exact decode_encode_of_mem_absents hform (List.mem_map.2 ⟨1, by decide, rfl⟩)

end WireContract.Wire
