import Mathlib.Data.List.Forall2
import Mathlib.Tactic.Common

/-!
# When a sequence of steps succeeds

The checks and readers of a contract are sequences of steps that stop at the first fault.  The
lemmas here say what the success of a sequence is in terms of its steps, so that later proofs take
such a sequence apart without opening it.
-/

namespace WireContract.Outcome

variable {ε ε' α β : Type}

@[simp] lemma bind_ok_iff {x : Except ε α} {f : α → Except ε β} {b : β} :
    x >>= f = .ok b ↔ ∃ a, x = .ok a ∧ f a = .ok b := by
  cases x with
  | error e => simp [bind, Except.bind]
  | ok a => simp [bind, Except.bind]

@[simp] lemma pure_ok_iff {a b : α} : (pure a : Except ε α) = .ok b ↔ a = b := by
  simp [pure, Except.pure]

@[simp] lemma map_ok_iff {f : α → β} {x : Except ε α} {b : β} :
    f <$> x = .ok b ↔ ∃ a, x = .ok a ∧ f a = b := by
  cases x with
  | error e => simp [Functor.map, Except.map]
  | ok a => simp [Functor.map, Except.map]

@[simp] lemma mapError_ok_iff {f : ε → ε'} {x : Except ε α} {a : α} :
    x.mapError f = .ok a ↔ x = .ok a := by
  cases x with
  | error e => simp [Except.mapError]
  | ok b => simp [Except.mapError]

lemma exists_ok_of_isOk {x : Except ε α} (h : x.isOk = true) : ∃ a, x = .ok a := by
  cases x with
  | error e => cases h
  | ok a => exact ⟨a, rfl⟩

@[simp] lemma exists_unit_iff {p : Unit → Prop} : (∃ u, p u) ↔ p () :=
  ⟨fun ⟨_, h⟩ => h, fun h => ⟨(), h⟩⟩

/-- A check passes before what follows it: there is one way for it to do so. -/
@[simp high] lemma check_bind_ok_iff {x : Except ε Unit} {f : Unit → Except ε β} {b : β} :
    x >>= f = .ok b ↔ x = .ok () ∧ f () = .ok b := by
  rw [bind_ok_iff, exists_unit_iff]

/-- Checking a list succeeds when every element passes. -/
@[simp] lemma forM_ok_iff {check : α → Except ε Unit} {l : List α} :
    forM l check = .ok () ↔ ∀ a ∈ l, check a = .ok () := by
  induction l with
  | nil => simp
  | cons a l ih => rw [List.forM_cons, check_bind_ok_iff, List.forall_mem_cons, ih]

/-- Reading a list succeeds when every element is read, each to the element in its place. -/
lemma mapM_ok_iff {read : α → Except ε β} {l : List α} {bs : List β} :
    l.mapM read = .ok bs ↔ List.Forall₂ (fun a b => read a = .ok b) l bs := by
  induction l generalizing bs with
  | nil =>
    rw [List.mapM_nil, pure_ok_iff, List.forall₂_nil_left_iff]
    exact eq_comm
  | cons a l ih =>
    rw [List.mapM_cons]
    simp only [bind_ok_iff, pure_ok_iff]
    constructor
    · rintro ⟨b, hb, bs', hbs, rfl⟩
      exact .cons hb (ih.1 hbs)
    · intro h
      cases h with
      | cons hb hbs => exact ⟨_, hb, _, ih.2 hbs, rfl⟩

/-- What was read came from an element that it was read from. -/
lemma exists_of_mem_forall₂ {R : α → β → Prop} {l : List α} {bs : List β}
    (h : List.Forall₂ R l bs) {b : β} (hb : b ∈ bs) : ∃ a ∈ l, R a b := by
  induction h with
  | nil => exact (List.not_mem_nil hb).elim
  | cons hab _ ih =>
    rcases List.mem_cons.1 hb with rfl | hb
    · exact ⟨_, List.mem_cons_self, hab⟩
    · obtain ⟨a, ha, hr⟩ := ih hb
      exact ⟨a, List.mem_cons_of_mem _ ha, hr⟩

/-- Elements that are each read under a condition, with one result, are read under all
conditions. -/
lemma forall₂_map_iff {γ : Type} {R : γ → β → Prop} {C : α → Prop} {f : α → γ} {result : α → β}
    {l : List α} {bs : List β} (h : ∀ a ∈ l, ∀ b, R (f a) b ↔ C a ∧ b = result a) :
    List.Forall₂ R (l.map f) bs ↔ (∀ a ∈ l, C a) ∧ bs = l.map result := by
  induction l generalizing bs with
  | nil => simp [List.forall₂_nil_left_iff]
  | cons a l ih =>
    rw [List.forall_mem_cons] at h
    rw [List.map_cons, List.forall₂_cons_left_iff, List.forall_mem_cons, List.map_cons]
    constructor
    · rintro ⟨b, bs, hb, hbs, rfl⟩
      obtain ⟨ha, rfl⟩ := (h.1 b).1 hb
      obtain ⟨hl, rfl⟩ := (ih h.2).1 hbs
      exact ⟨⟨ha, hl⟩, rfl⟩
    · rintro ⟨⟨ha, hl⟩, rfl⟩
      exact ⟨_, _, (h.1 _).2 ⟨ha, rfl⟩, (ih h.2).2 ⟨hl, rfl⟩, rfl⟩

end WireContract.Outcome
