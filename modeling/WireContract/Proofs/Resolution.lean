import Mathlib.Data.List.Basic
import Mathlib.Tactic.Common
import WireContract.Proofs.Outcome
import WireContract.Proofs.References

/-!
# Resolution and the mentioned names

Two recursions go over a reference.  `mentions` lists its names and cannot fail; `resolve` looks the
names up one after the other and stops at the first that is not declared.  What is done with the
list, the imports of a file and the edges between modules, relies on the names being those that
resolution has looked up.

A resolved reference holds more than the reference, the kind of each name.  `Resolved.reference`
leaves the kinds out and `Resolved.kinds` lists them.  `resolve_eq_ok_iff` says that these two
determine the result, and `resolve_or_first_undeclared` that resolution stops where a search of the
list does.  Later proofs use the two and do not open `resolve`.
-/

namespace WireContract.Schema

namespace Resolved

/-- The reference without the kinds. -/
def reference : Resolved → TypeRef
  | primitive p => .primitive p
  | binary => .binary
  | optional inner => .optional inner.reference
  | list item => .list item.reference
  | set item => .set item.reference
  | map key value => .map key.reference value.reference
  | declared name _ => .declared name
  | external name fallback => .external name fallback.reference

/-- The declared names with the kind of each, in order of mention. -/
def kinds : Resolved → List (QualifiedName × Kind)
  | primitive _ | binary => []
  | optional inner | list inner | set inner => inner.kinds
  | map key value => key.kinds ++ value.kinds
  | declared name kind => [(name, kind)]
  | external _ fallback => fallback.kinds

/-- Every kind is that of the declaration which the registry has under the name. -/
def KindsFrom (reg : Registry) (t : Resolved) : Prop :=
  ∀ q kind, (q, kind) ∈ t.kinds → ∃ d, reg.get? q = some d ∧ d.kind = kind

lemma kindsFrom_map_iff {reg : Registry} {key value : Resolved} :
    (map key value).KindsFrom reg ↔ key.KindsFrom reg ∧ value.KindsFrom reg := by
  simp only [KindsFrom, kinds, List.mem_append, or_imp, forall_and]

end Resolved

namespace Registry

variable {reg : Registry} {r : TypeRef} {t : Resolved}

/-! ## What resolution gives -/

/-- A resolved reference with the right kinds is what its reference is resolved to. -/
lemma resolve_reference (ht : t.KindsFrom reg) : reg.resolve t.reference = .ok t := by
  induction t with
  | primitive | binary => rfl
  | optional inner ih | list inner ih | set inner ih | external q inner ih =>
    rw [Resolved.reference, resolve, ih ht]
    rfl
  | map key value ihk ihv =>
    rw [Resolved.kindsFrom_map_iff] at ht
    rw [Resolved.reference, resolve, ihk ht.1, ihv ht.2]
    rfl
  | declared q kind =>
    obtain ⟨d, hd, rfl⟩ := ht q kind (List.mem_singleton_self _)
    rw [Resolved.reference, resolve, hd]

lemma reference_and_kinds_of_resolve (h : reg.resolve r = .ok t) :
    t.reference = r ∧ t.KindsFrom reg := by
  induction r generalizing t with
  | primitive | binary =>
    obtain rfl := Except.ok.inj h
    exact ⟨rfl, fun _ _ hq => (List.not_mem_nil hq).elim⟩
  | optional inner ih | list inner ih | set inner ih | external q inner ih =>
    simp only [resolve, Outcome.bind_ok_iff, Outcome.pure_ok_iff] at h
    obtain ⟨s, hs, rfl⟩ := h
    obtain ⟨rfl, hkinds⟩ := ih hs
    exact ⟨rfl, hkinds⟩
  | map key value ihk ihv =>
    simp only [resolve, Outcome.bind_ok_iff, Outcome.pure_ok_iff] at h
    obtain ⟨k, hk, v, hv, rfl⟩ := h
    obtain ⟨rfl, hkindsk⟩ := ihk hk
    obtain ⟨rfl, hkindsv⟩ := ihv hv
    exact ⟨rfl, Resolved.kindsFrom_map_iff.2 ⟨hkindsk, hkindsv⟩⟩
  | declared q =>
    rw [resolve] at h
    cases hget : reg.get? q with
    | none =>
      rw [hget] at h
      cases h
    | some d =>
      rw [hget] at h
      obtain rfl := Except.ok.inj h
      refine ⟨rfl, fun p kind hp => ?_⟩
      obtain ⟨rfl, rfl⟩ := Prod.mk.inj (List.mem_singleton.1 hp)
      exact ⟨d, hget, rfl⟩

/-- A reference is resolved to itself, with the kinds of the declarations. -/
lemma resolve_eq_ok_iff : reg.resolve r = .ok t ↔ t.reference = r ∧ t.KindsFrom reg := by
  refine ⟨reference_and_kinds_of_resolve, ?_⟩
  rintro ⟨rfl, ht⟩
  exact resolve_reference ht

/-! ## Where resolution stops -/

/-- Resolution succeeds when a search of the mentioned names for an undeclared one finds none, and
otherwise reports the name that the search finds. -/
lemma resolve_or_first_undeclared (reg : Registry) (r : TypeRef) :
    ((∃ t, reg.resolve r = .ok t) ∧ r.mentions.find? (fun q => !reg.contains q) = none) ∨
      ∃ q, reg.resolve r = .error q ∧ r.mentions.find? (fun q => !reg.contains q) = some q := by
  induction r with
  | primitive p => exact .inl ⟨⟨_, rfl⟩, rfl⟩
  | binary => exact .inl ⟨⟨_, rfl⟩, rfl⟩
  | optional inner ih | list inner ih | set inner ih | external q inner ih =>
    rw [resolve, TypeRef.mentions]
    obtain ⟨⟨t, ht⟩, hnone⟩ | ⟨q, hq, hsome⟩ := ih
    · rw [ht]
      exact .inl ⟨⟨_, rfl⟩, hnone⟩
    · rw [hq]
      exact .inr ⟨q, rfl, hsome⟩
  | map key value ihk ihv =>
    -- the names of the value are reached only if all names of the key are declared
    rw [resolve, TypeRef.mentions, List.find?_append]
    obtain ⟨⟨k, hk⟩, hnone⟩ | ⟨q, hq, hsome⟩ := ihk
    · rw [hk, hnone, Option.none_or]
      obtain ⟨⟨v, hv⟩, hnone'⟩ | ⟨q, hq, hsome⟩ := ihv
      · rw [hv]
        exact .inl ⟨⟨_, rfl⟩, hnone'⟩
      · rw [hq]
        exact .inr ⟨q, rfl, hsome⟩
    · rw [hq, hsome, Option.some_or]
      exact .inr ⟨q, rfl, rfl⟩
  | declared q =>
    rw [resolve, TypeRef.mentions, List.find?_singleton, contains]
    cases hget : reg.get? q with
    | none => exact .inr ⟨q, rfl, rfl⟩
    | some d => exact .inl ⟨⟨_, rfl⟩, rfl⟩

lemma resolve_eq_error_iff {q : QualifiedName} :
    reg.resolve r = .error q ↔ r.mentions.find? (fun q => !reg.contains q) = some q := by
  obtain ⟨⟨t, ht⟩, hnone⟩ | ⟨p, hp, hsome⟩ := resolve_or_first_undeclared reg r
  · simp [ht, hnone]
  · simp [hp, hsome]

lemma exists_resolve_ok_iff :
    (∃ t, reg.resolve r = .ok t) ↔ ∀ q ∈ r.mentions, reg.contains q = true := by
  have hnone : r.mentions.find? (fun q => !reg.contains q) = none ↔
      ∀ q ∈ r.mentions, reg.contains q = true := by
    simp [List.find?_eq_none]
  rw [← hnone]
  obtain ⟨hok, hfind⟩ | ⟨p, hp, hfind⟩ := resolve_or_first_undeclared reg r
  · exact iff_of_true hok hfind
  · simp [hp, hfind]

/-- A reference is resolved exactly if every name it mentions is declared.  The result is the
reference with the kind of each name's declaration; a failure reports the first of the mentioned
names that is not declared. -/
theorem resolve_agrees_with_mentions (reg : Registry) (r : TypeRef) :
    ((∃ t, reg.resolve r = .ok t) ↔ ∀ q ∈ r.mentions, reg.contains q = true) ∧
      (∀ t, reg.resolve r = .ok t ↔ t.reference = r ∧ t.KindsFrom reg) ∧
      ∀ q, reg.resolve r = .error q ↔
        r.mentions.find? (fun q => !reg.contains q) = some q :=
  ⟨exists_resolve_ok_iff, fun _ => resolve_eq_ok_iff, fun _ => resolve_eq_error_iff⟩

/-- An enumeration and a union that holds it. -/
def twoKinds : Registry :=
  ⟨[.union ⟨⟨"m", "Ink"⟩, [⟨"shade", .declared ⟨"m", "Shade"⟩, none⟩], none⟩,
    .enum ⟨⟨"m", "Shade"⟩, [⟨"DARK", none⟩], none⟩]⟩

/-- The names below an external name and a set are found, each with its kind.  Of two missing names
the one in the key is reported. -/
theorem resolve_agrees_with_mentions_twoKinds :
    twoKinds.resolve (.map (.external ⟨"x", "Tint"⟩ (.declared ⟨"m", "Shade"⟩))
        (.set (.declared ⟨"m", "Ink"⟩))) =
      .ok (.map (.external ⟨"x", "Tint"⟩ (.declared ⟨"m", "Shade"⟩ .enum))
        (.set (.declared ⟨"m", "Ink"⟩ .union))) ∧
    twoKinds.resolve (.map (.optional (.declared ⟨"m", "Gone"⟩))
        (.map (.declared ⟨"m", "Ink"⟩) (.declared ⟨"m", "Lost"⟩))) = .error ⟨"m", "Gone"⟩ := by
  refine ⟨((resolve_agrees_with_mentions twoKinds _).2.1 _).2 ⟨rfl, ?_⟩,
    ((resolve_agrees_with_mentions twoKinds _).2.2 _).2 (by decide)⟩
  intro q kind hq
  obtain hq | hq := List.mem_pair.1 hq
  · obtain ⟨rfl, rfl⟩ := Prod.mk.inj hq
    exact ⟨_, rfl, rfl⟩
  · obtain ⟨rfl, rfl⟩ := Prod.mk.inj hq
    exact ⟨_, rfl, rfl⟩

end Registry

end WireContract.Schema
