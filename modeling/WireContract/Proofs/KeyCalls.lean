import WireContract.Proofs.Representations

/-!
# The test for keys comes to an end

`Registry.canBeKey` follows aliases and external fallbacks with the names passed on the way and a
bounded number of steps, and answers "no" when the steps are used up.  That more steps change
nothing would therefore not show that the walk is over.  `KeyCall` is the test without a bound: each
call with its answer is made of the calls inside it, so a call that has an answer ends.  Every call
has one answer, which is that of `canBeKey` (`Passed.keyCall`, `KeyCall.unique`).

What the answer says is read from the chain of the reference.  A name that was passed before is met
again only if the chain goes round, and then it ends nowhere: the answer is "yes" exactly if the
chain ends at a type that can be a key.
-/

namespace WireContract.Schema

open Relation

namespace Registry

variable {reg : Registry} {passed : List QualifiedName} {r : TypeRef}

/-- A call of the test for keys: the names passed before it, the reference and the answer. -/
inductive KeyCall (reg : Registry) : List QualifiedName → TypeRef → Bool → Prop where
  | primitive {passed : List QualifiedName} (p : Primitive) :
      KeyCall reg passed (.primitive p) p.canBeKey
  | binary {passed : List QualifiedName} : KeyCall reg passed .binary true
  /-- An external name is left to its fallback. -/
  | external {passed : List QualifiedName} {fallback : TypeRef} {answer : Bool}
      (q : QualifiedName) (h : KeyCall reg passed fallback answer) :
      KeyCall reg passed (.external q fallback) answer
  /-- A name that was passed before is not followed again. -/
  | again {passed : List QualifiedName} {q : QualifiedName} (hq : q ∈ passed) :
      KeyCall reg passed (.declared q) false
  | enum {passed : List QualifiedName} {q : QualifiedName} {e : Enum} (hq : q ∉ passed)
      (hget : reg.get? q = some (.enum e)) : KeyCall reg passed (.declared q) true
  /-- An alias is left to its target. -/
  | follow {passed : List QualifiedName} {q : QualifiedName} {a : Alias} {answer : Bool}
      (hq : q ∉ passed) (hget : reg.get? q = some (.alias a))
      (h : KeyCall reg (q :: passed) a.target answer) : KeyCall reg passed (.declared q) answer
  /-- A name that is not declared, or declared as something else, is no key. -/
  | stop {passed : List QualifiedName} {q : QualifiedName} (hq : q ∉ passed)
      (hget : ∀ d, reg.get? q = some d → d.kind ≠ .enum ∧ d.kind ≠ .alias) :
      KeyCall reg passed (.declared q) false
  | optional {passed : List QualifiedName} (inner : TypeRef) :
      KeyCall reg passed (.optional inner) false
  | list {passed : List QualifiedName} (item : TypeRef) : KeyCall reg passed (.list item) false
  | set {passed : List QualifiedName} (item : TypeRef) : KeyCall reg passed (.set item) false
  | map {passed : List QualifiedName} (key value : TypeRef) :
      KeyCall reg passed (.map key value) false

/-! ## Every call has one answer -/

/-- A call has one answer at most. -/
lemma KeyCall.unique {answer answer' : Bool} (h : reg.KeyCall passed r answer)
    (h' : reg.KeyCall passed r answer') : answer = answer' := by
  induction h with
  | primitive p | binary | optional | list | set | map =>
    cases h'
    rfl
  | external q _ ih =>
    cases h' with
    | external _ h' => exact ih h'
  | again hq =>
    cases h' with
    | again => rfl
    | stop => rfl
    | enum hq' | follow hq' => exact (hq' hq).elim
  | enum hq hget =>
    cases h' with
    | enum => rfl
    | again hq' => exact (hq hq').elim
    | follow _ hget' =>
      rw [hget] at hget'
      cases hget'
    | stop _ hget' => exact ((hget' _ hget).1 rfl).elim
  | follow hq hget _ ih =>
    cases h' with
    | again hq' => exact (hq hq').elim
    | enum _ hget' =>
      rw [hget] at hget'
      cases hget'
    | follow _ hget' h' =>
      rw [hget] at hget'
      obtain rfl := Declaration.alias.inj (Option.some.inj hget')
      exact ih h'
    | stop _ hget' => exact ((hget' _ hget).2 rfl).elim
  | stop hq hget =>
    cases h' with
    | again => rfl
    | stop => rfl
    | enum _ hget' => exact ((hget _ hget').1 rfl).elim
    | follow _ hget' => exact ((hget _ hget').2 rfl).elim

/-- External names are left to what is behind them. -/
lemma KeyCall.of_withoutExternals {answer : Bool}
    (h : reg.KeyCall passed r.withoutExternals answer) : reg.KeyCall passed r answer := by
  induction r with
  | external q fallback ih => exact .external q (ih h)
  | _ => exact h

/-- The walk with a bound makes the calls of the test, if its steps cover the names that were not
passed yet. -/
lemma Passed.keyCall (h : reg.Passed passed r) {fuel : ℕ}
    (hfuel : reg.size < fuel + passed.length) :
    reg.KeyCall passed r (reg.canBeKeyAfter fuel passed r) := by
  induction fuel generalizing passed r with
  | zero =>
    have hle := h.length_le
    omega
  | succ fuel ih =>
    have hchain := standsFor_withoutExternals reg r
    apply KeyCall.of_withoutExternals
    rw [canBeKeyAfter]
    generalize hr : r.withoutExternals = core at hchain
    cases core with
    | primitive p => exact .primitive p
    | binary => exact .binary
    | optional inner => exact .optional inner
    | list item => exact .list item
    | set item => exact .set item
    | map key value => exact .map key value
    | external q fallback => exact (withoutExternals_ne_external r fallback q hr).elim
    | declared q =>
      dsimp only
      by_cases hq : q ∈ passed
      · rw [if_pos (by simpa using hq)]
        exact .again hq
      · rw [if_neg (by simpa using hq)]
        cases hget : reg.get? q with
        | none => exact .stop hq (by simp [hget])
        | some d =>
          obtain ⟨hd, rfl⟩ := mem_of_get? hget
          cases d with
          | enum e => exact .enum hq hget
          | «alias» a =>
            refine .follow hq hget (ih (h.step hd hchain hq) ?_)
            rw [List.length_cons]
            omega
          | object | union | error => exact .stop hq (by simp [hget, Declaration.kind])

/-- The test has one answer, which the walk with its bound gives. -/
theorem keyCall_iff {answer : Bool} : reg.KeyCall [] r answer ↔ answer = reg.canBeKey r := by
  have hcall : reg.KeyCall [] r (reg.canBeKey r) := (Passed.init reg r).keyCall (by simp)
  constructor
  · exact fun h => h.unique hcall
  · rintro rfl
    exact hcall

/-! ## What the answer says -/

/-- The chain to a key ends there. -/
lemma Indexed.endsAtKey_iff (hreg : reg.Indexed) :
    EndsAtKey reg.declarations r ↔
      ∃ t, RepresentedBy reg.declarations r t ∧ KeyType reg.declarations t := by
  constructor
  · rintro ⟨t, hrt, ht⟩
    exact ⟨t, ⟨hrt, fun s => hreg.not_standsFor_of_keyType ht⟩, ht⟩
  · rintro ⟨t, ⟨hrt, -⟩, ht⟩
    exact ⟨t, hrt, ht⟩

/-- A chain ends at no key exactly if it goes round or ends at something else. -/
lemma Indexed.not_endsAtKey_iff (hreg : reg.Indexed) :
    ¬ EndsAtKey reg.declarations r ↔ GoesRound reg.declarations r ∨
      ∃ t, RepresentedBy reg.declarations r t ∧ ¬ KeyType reg.declarations t := by
  rw [hreg.endsAtKey_iff]
  constructor
  · intro h
    rcases exists_representedBy_or_goesRound reg r with ⟨t, ht⟩ | hround
    · exact .inr ⟨t, ht, fun hkey => h ⟨t, ht, hkey⟩⟩
    · exact .inl hround
  · rintro (hround | ⟨t, ht, hkey⟩) ⟨s, hs, hs'⟩
    · exact hreg.not_goesRound hs hround
    · rw [hreg.representedBy_unique ht hs] at hkey
      exact hkey hs'

/-- In every registry the test for keys ends, for every reference, with the answer of `canBeKey`.
It is "yes" exactly if following aliases and fallbacks ends at a primitive that can be a key, at
binary or at an enumeration; it is "no" exactly if the chain goes round or ends at something else,
which may be a name that is not declared. -/
theorem canBeKey_tells_end_of_chain (ds : List Declaration) (reg : Registry)
    (hreg : ofDeclarations ds = .ok reg) (r : TypeRef) :
    (∀ answer, reg.KeyCall [] r answer ↔ answer = reg.canBeKey r) ∧
      (reg.canBeKey r = true ↔ EndsAtKey reg.declarations r) ∧
      (reg.canBeKey r = false ↔ GoesRound reg.declarations r ∨
        ∃ t, RepresentedBy reg.declarations r t ∧ ¬ KeyType reg.declarations t) := by
  have hindexed := indexed_of_ofDeclarations hreg
  refine ⟨fun answer => keyCall_iff, hindexed.canBeKey_iff, ?_⟩
  rw [← Bool.not_eq_true, hindexed.canBeKey_iff]
  exact hindexed.not_endsAtKey_iff

/-- A chain that passes two fallbacks and an alias on its way to an enumeration, two aliases that
stand for each other, one of them through a fallback, and an alias of a name that is not
declared. -/
def tangled : List Declaration :=
  [.alias ⟨⟨"m", "Deep"⟩,
      .external ⟨"x", "A"⟩ (.external ⟨"y", "B"⟩ (.declared ⟨"m", "Mark"⟩)), none⟩,
    .alias ⟨⟨"m", "Entry"⟩, .external ⟨"x", "Ring"⟩ (.declared ⟨"m", "Ring"⟩), none⟩,
    .enum ⟨⟨"m", "Hue"⟩, [⟨"RED", none⟩], none⟩,
    .alias ⟨⟨"m", "Mark"⟩, .declared ⟨"m", "Hue"⟩, none⟩,
    .alias ⟨⟨"m", "Ring"⟩, .declared ⟨"m", "Entry"⟩, none⟩,
    .alias ⟨⟨"m", "Stray"⟩, .declared ⟨"m", "Gone"⟩, none⟩]

/-- The enumeration is found past the fallbacks; the circle and the missing name are told to be no
keys. -/
theorem canBeKey_tells_end_of_chain_tangled :
    ofDeclarations tangled = .ok ⟨tangled⟩ ∧
      EndsAtKey tangled (.declared ⟨"m", "Deep"⟩) ∧
      Registry.KeyCall ⟨tangled⟩ [] (.declared ⟨"m", "Entry"⟩) false ∧
      ¬ EndsAtKey tangled (.declared ⟨"m", "Entry"⟩) ∧
      (GoesRound tangled (.declared ⟨"m", "Stray"⟩) ∨
        ∃ t, RepresentedBy tangled (.declared ⟨"m", "Stray"⟩) t ∧ ¬ KeyType tangled t) := by
  have hsorted : tangled.mergeSort (fun a b => a.name.le b.name) = tangled :=
    List.mergeSort_of_pairwise (by decide)
  have hok : ofDeclarations tangled = .ok ⟨tangled⟩ :=
    ofDeclarations_ok_iff.2 ⟨by decide, by rw [hsorted]⟩
  obtain ⟨-, hdeep, -⟩ := canBeKey_tells_end_of_chain _ _ hok (.declared ⟨"m", "Deep"⟩)
  obtain ⟨hcalls, hentry, -⟩ := canBeKey_tells_end_of_chain _ _ hok (.declared ⟨"m", "Entry"⟩)
  obtain ⟨-, -, hstray⟩ := canBeKey_tells_end_of_chain _ _ hok (.declared ⟨"m", "Stray"⟩)
  refine ⟨hok, hdeep.1 (by decide), (hcalls false).2 (by decide), ?_, hstray.1 (by decide)⟩
  rw [← hentry]
  decide

end Registry

end WireContract.Schema
