import Mathlib.Order.Bounds.Basic
import WireContract.Proofs.Orderable

/-!
# The types that have an order, for any registry

A registry may name what it does not declare, and its declarations may go round in circles.  Still
the removal of names from the candidates comes to an end (`Settles` is the removal without a bound
on its rounds), and what is left is known from outside in two ways.  No chain of references from it
meets something that has no order.  And it is the greatest set of aliases, enumerations and objects
that are ordered as long as the set is.

The second way is the one that the rounds prove: a set that is ordered relative to itself loses no
name in a round, whatever else is still there.  The first way is reduced to it, since the names from
which nothing unordered is met are such a set.
-/

namespace WireContract.Schema

open Relation

/-! ## Chains of references -/

/-- One step of a chain of references: into an optional, a container or the fallback of an external
type, from an alias to its target, or from an object to the type of a field. -/
inductive Passes (ds : List Declaration) : TypeRef → TypeRef → Prop where
  | optional (r : TypeRef) : Passes ds (.optional r) r
  | listItem (r : TypeRef) : Passes ds (.list r) r
  | setItem (r : TypeRef) : Passes ds (.set r) r
  | key (k v : TypeRef) : Passes ds (.map k v) k
  | value (k v : TypeRef) : Passes ds (.map k v) v
  | fallback (q : QualifiedName) (r : TypeRef) : Passes ds (.external q r) r
  | target {a : Alias} (ha : .alias a ∈ ds) : Passes ds (.declared a.name) a.target
  | field {o : Object} {f : Field} (ho : .object o ∈ ds) (hf : f ∈ o.fields) :
      Passes ds (.declared o.name) f.type

/-- Where no order is: two of the primitives, unions, errors, and names that are not declared. -/
inductive OrderEnds (ds : List Declaration) : TypeRef → Prop where
  | double : OrderEnds ds (.primitive .double)
  | any : OrderEnds ds (.primitive .any)
  | union {u : Union} (hu : .union u ∈ ds) : OrderEnds ds (.declared u.name)
  | error {e : ErrorDecl} (he : .error e ∈ ds) : OrderEnds ds (.declared e.name)
  | undeclared {q : QualifiedName} (hq : ∀ d ∈ ds, d.name ≠ q) : OrderEnds ds (.declared q)

/-- A declaration of values that may have an order. -/
def Declaration.IsPlain (d : Declaration) : Prop :=
  d.kind = .alias ∨ d.kind = .enum ∨ d.kind = .object

/-- The name is that of an alias, an enumeration or an object, and no chain of references from it
ends where no order is. -/
def OrderedByChains (ds : List Declaration) (q : QualifiedName) : Prop :=
  (∃ d ∈ ds, d.name = q ∧ d.IsPlain) ∧
    ∀ t, ReflTransGen (Passes ds) (.declared q) t → ¬ OrderEnds ds t

/-! ## Sets that are ordered relative to themselves -/

/-- The reference has an order, if the names of the set have. -/
def TypeRef.OrderedOver (s : Set QualifiedName) : TypeRef → Prop
  | .primitive p => p ≠ .double ∧ p ≠ .any
  | .binary => True
  | .optional r | .list r | .set r => r.OrderedOver s
  | .map k v => k.OrderedOver s ∧ v.OrderedOver s
  | .declared q => q ∈ s
  | .external _ r => r.OrderedOver s

/-- Aliases, enumerations and objects, all of whose references have an order if the set has. -/
def SelfOrdered (ds : List Declaration) (s : Set QualifiedName) : Prop :=
  ∀ q ∈ s, ∃ d ∈ ds, d.name = q ∧ d.IsPlain ∧
    ∀ member r, (member, r) ∈ d.references → r.OrderedOver s

lemma Primitive.isOrderable_iff {p : Primitive} :
    p.isOrderable = true ↔ p ≠ .double ∧ p ≠ .any := by
  cases p <;> decide

namespace TypeRef

lemma OrderedOver.mono {s s' : Set QualifiedName} (hsub : s ⊆ s') {r : TypeRef}
    (hr : r.OrderedOver s) : r.OrderedOver s' := by
  induction r with
  | primitive | binary => exact hr
  | declared q => exact hsub hr
  | optional r ih | list r ih | set r ih | external q r ih => exact ih hr
  | map k v ihk ihv => exact ⟨ihk hr.1, ihv hr.2⟩

/-- The test of a reference against a list of names is order relative to their set. -/
lemma isOrderable_iff_orderedOver {r : TypeRef} {names : List QualifiedName} :
    r.isOrderable names = true ↔ r.OrderedOver {q | q ∈ names} := by
  induction r with
  | primitive p => exact Primitive.isOrderable_iff
  | binary => simp [isOrderable, OrderedOver]
  | declared q => simp [isOrderable, OrderedOver]
  | optional r ih | list r ih | set r ih | external q r ih => exact ih
  | map k v ihk ihv => rw [isOrderable, Bool.and_eq_true, ihk, ihv, OrderedOver]

/-- A reference whose chains meet nothing without order has one, if the names have from which the
same is true. -/
lemma orderedOver_of_chains {ds : List Declaration} {r : TypeRef}
    (h : ∀ t, ReflTransGen (Passes ds) r t → ¬ OrderEnds ds t) :
    r.OrderedOver {q | OrderedByChains ds q} := by
  induction r with
  | primitive p =>
    refine ⟨?_, ?_⟩
    · rintro rfl
      exact h _ .refl .double
    · rintro rfl
      exact h _ .refl .any
  | binary => trivial
  | declared q =>
    refine ⟨?_, h⟩
    by_contra hnone
    refine h _ .refl (.undeclared fun d hd hname => hnone ⟨d, hd, hname, ?_⟩)
    cases d with
    | «alias» => exact .inl rfl
    | enum => exact .inr (.inl rfl)
    | object => exact .inr (.inr rfl)
    | union u => exact (h _ .refl (hname ▸ .union hd)).elim
    | error e => exact (h _ .refl (hname ▸ .error hd)).elim
  | optional r ih => exact ih fun t ht => h t (.head (.optional r) ht)
  | list r ih => exact ih fun t ht => h t (.head (.listItem r) ht)
  | set r ih => exact ih fun t ht => h t (.head (.setItem r) ht)
  | map k v ihk ihv =>
    exact ⟨ihk fun t ht => h t (.head (.key k v) ht), ihv fun t ht => h t (.head (.value k v) ht)⟩
  | external q r ih => exact ih fun t ht => h t (.head (.fallback q r) ht)

end TypeRef

/-- The references of an alias, an enumeration or an object are one step away from its name. -/
lemma Passes.of_mem_references {ds : List Declaration} {d : Declaration} (hd : d ∈ ds)
    (hplain : d.IsPlain) {member : String} {r : TypeRef} (hr : (member, r) ∈ d.references) :
    Passes ds (.declared d.name) r := by
  cases d with
  | «alias» a =>
    obtain ⟨-, rfl⟩ := Prod.mk.inj (List.mem_singleton.1 hr)
    exact .target hd
  | enum e => exact (List.not_mem_nil hr).elim
  | object o =>
    obtain ⟨f, hf, heq⟩ := List.mem_map.1 hr
    obtain ⟨-, rfl⟩ := Prod.mk.inj heq
    exact .field hd hf
  | union | error => rcases hplain with h | h | h <;> cases h

lemma selfOrdered_orderedByChains (ds : List Declaration) :
    SelfOrdered ds {q | OrderedByChains ds q} := by
  rintro q ⟨⟨d, hd, rfl, hplain⟩, hchains⟩
  refine ⟨d, hd, rfl, hplain, fun member r hr => TypeRef.orderedOver_of_chains fun t ht => ?_⟩
  exact hchains t (.head (.of_mem_references hd hplain hr) ht)

/-- Where the chains of the wider kind lead, those that stop at unions and errors lead too. -/
lemma Passes.leads {ds : List Declaration} {r t : TypeRef} (h : Passes ds r t) :
    Leads ds r t := by
  cases h with
  | optional | listItem | setItem | key | value | fallback =>
    exact .part (by simp [TypeRef.subterms])
  | target ha => exact .enter ha (List.mem_singleton_self _)
  | field ho hf => exact .enter ho (List.mem_map_of_mem hf)

namespace Registry

variable {reg : Registry} {names : List QualifiedName}

/-! ## Rounds of removal -/

/-- Names are removed, round by round, until none is: the result of the rounds. -/
inductive Settles (reg : Registry) : List QualifiedName → List QualifiedName → Prop where
  | done {names : List QualifiedName} (h : ∀ q ∈ names, reg.keepsOrder names q = true) :
      Settles reg names names
  | round {names settled : List QualifiedName} (h : ∃ q ∈ names, reg.keepsOrder names q = false)
      (hrest : Settles reg (names.filter (reg.keepsOrder names)) settled) :
      Settles reg names settled

/-- The rounds have one result. -/
lemma Settles.unique {settled settled' : List QualifiedName} (h : reg.Settles names settled)
    (h' : reg.Settles names settled') : settled = settled' := by
  induction h with
  | done hall =>
    cases h' with
    | done => rfl
    | round hsome =>
      obtain ⟨q, hq, hfalse⟩ := hsome
      rw [hall q hq] at hfalse
      cases hfalse
  | round hsome _ ih =>
    cases h' with
    | done hall =>
      obtain ⟨q, hq, hfalse⟩ := hsome
      rw [hall q hq] at hfalse
      cases hfalse
    | round _ hrest' => exact ih hrest'

/-- A round that removes nothing is the last, and one that does leaves fewer names. -/
lemma settles_demote {rounds : ℕ} (hrounds : names.length ≤ rounds) :
    reg.Settles names (reg.demote rounds names) := by
  induction rounds generalizing names with
  | zero =>
    have hnil : names = [] := List.eq_nil_of_length_eq_zero (Nat.le_zero.1 hrounds)
    rw [demote, hnil]
    exact .done fun q hq => (List.not_mem_nil hq).elim
  | succ rounds ih =>
    rw [demote]
    by_cases hlen : (names.filter (reg.keepsOrder names)).length = names.length
    · rw [if_pos (beq_iff_eq.2 hlen)]
      exact .done (List.length_filter_eq_length_iff.1 hlen)
    · rw [if_neg (fun h => hlen (beq_iff_eq.1 h))]
      have hle := List.length_filter_le (reg.keepsOrder names) names
      have hsome : ∃ q ∈ names, reg.keepsOrder names q = false := by
        simpa [List.length_filter_eq_length_iff] using hlen
      exact .round hsome (ih (by omega))

lemma settles_orderable (reg : Registry) : reg.Settles reg.orderCandidates reg.orderable := by
  refine settles_demote ?_
  have hle : reg.orderCandidates.length ≤ reg.size := by
    rw [orderCandidates, List.length_map]
    exact List.length_filter_le _ _
  omega

/-! ## What the rounds leave -/

/-- A set that is ordered relative to itself loses no name. -/
lemma Indexed.subset_orderable (hreg : reg.Indexed) {s : Set QualifiedName}
    (hs : SelfOrdered reg.declarations s) : s ⊆ {q | q ∈ reg.orderable} := by
  intro q hq
  refine mem_demote_of_closed (T := (· ∈ s)) (fun names hnames q hq => ?_) _ (fun q hq => ?_) hq
  · obtain ⟨d, hd, rfl, -, hrefs⟩ := hs q hq
    rw [keepsOrder, hreg.get?_name hd]
    refine List.all_eq_true.2 fun ref href => ?_
    exact TypeRef.isOrderable_iff_orderedOver.2 ((hrefs ref.1 ref.2 href).mono hnames)
  · obtain ⟨d, hd, hname, hplain, -⟩ := hs q hq
    refine mem_orderCandidates_iff.2 ⟨d, hd, hname, ?_⟩
    rcases hplain with h | h | h <;> simp [h]

lemma Indexed.selfOrdered_orderable (hreg : reg.Indexed) :
    SelfOrdered reg.declarations {q | q ∈ reg.orderable} := by
  intro q hq
  obtain ⟨d, hd, rfl, hunion, herror⟩ := mem_orderCandidates_iff.1 (demote_subset _ _ hq)
  have hkeeps := keepsOrder_of_mem_orderable hq
  rw [keepsOrder, hreg.get?_name hd] at hkeeps
  refine ⟨d, hd, rfl, ?_, fun member r hr => ?_⟩
  · cases d with
    | «alias» => exact .inl rfl
    | enum => exact .inr (.inl rfl)
    | object => exact .inr (.inr rfl)
    | union => exact (hunion rfl).elim
    | error => exact (herror rfl).elim
  · exact TypeRef.isOrderable_iff_orderedOver.1 (List.all_eq_true.1 hkeeps _ hr)

/-- What may be ordered is not where order ends. -/
lemma Indexed.not_orderEnds (hreg : reg.Indexed) {t : TypeRef}
    (ht : MayBeOrdered reg.declarations t) : ¬ OrderEnds reg.declarations t := by
  intro hend
  cases hend with
  | double | any => exact absurd ht (by simp [MayBeOrdered, Primitive.isOrderable])
  | union hu =>
    obtain ⟨d, hd, hname, hkind, -⟩ := ht
    rw [hreg.eq_of_name_eq hd hu hname] at hkind
    exact hkind rfl
  | error he =>
    obtain ⟨d, hd, hname, -, hkind⟩ := ht
    rw [hreg.eq_of_name_eq hd he hname] at hkind
    exact hkind rfl
  | undeclared hq =>
    obtain ⟨d, hd, hname, -⟩ := ht
    exact hq d hd hname

lemma Indexed.mem_orderable_iff_orderedByChains (hreg : reg.Indexed) {q : QualifiedName} :
    q ∈ reg.orderable ↔ OrderedByChains reg.declarations q := by
  constructor
  · intro hq
    obtain ⟨d, hd, hname, hplain, -⟩ := hreg.selfOrdered_orderable q hq
    refine ⟨⟨d, hd, hname, hplain⟩, fun t ht => hreg.not_orderEnds ?_⟩
    exact hreg.mem_orderable_iff.1 hq t (ReflTransGen.mono (fun _ _ => Passes.leads) _ _ ht)
  · intro hq
    exact hreg.subset_orderable (selfOrdered_orderedByChains _) hq

/-- For the registry of any declarations with distinct names, whatever they refer to, the rounds of
removal come to an end with exactly one result, the orderable names.  A name is one of these exactly
if it is that of an alias, an enumeration or an object from which no chain of references ends at a
double, an arbitrary value, a union, an error or a name that is not declared.  And they are the
greatest set of aliases, enumerations and objects that is ordered relative to itself. -/
theorem orderable_is_greatest (ds : List Declaration) (reg : Registry)
    (h : ofDeclarations ds = .ok reg) :
    (∀ settled, reg.Settles reg.orderCandidates settled ↔ settled = reg.orderable) ∧
    (∀ q, q ∈ reg.orderable ↔ OrderedByChains reg.declarations q) ∧
    IsGreatest {s | SelfOrdered reg.declarations s} {q | q ∈ reg.orderable} := by
  have hreg := indexed_of_ofDeclarations h
  refine ⟨fun settled => ⟨fun hs => hs.unique (settles_orderable reg), ?_⟩,
    fun q => hreg.mem_orderable_iff_orderedByChains, hreg.selfOrdered_orderable,
    fun s hs => hreg.subset_orderable hs⟩
  rintro rfl
  exact settles_orderable reg

/-- An enumeration, a recursive object, two objects that hold each other and one of which names what
is not declared, an alias that comes back to itself through an external type, and an alias of a
list. -/
def tangle : List Declaration :=
  [.enum ⟨⟨"m", "Color"⟩, [⟨"RED", none⟩], none⟩,
    .object ⟨⟨"m", "Node"⟩, [⟨"next", .optional (.declared ⟨"m", "Node"⟩), none, none⟩,
      ⟨"tint", .declared ⟨"m", "Color"⟩, none, none⟩], none⟩,
    .object ⟨⟨"m", "Ping"⟩, [⟨"pong", .declared ⟨"m", "Pong"⟩, none, none⟩], none⟩,
    .object ⟨⟨"m", "Pong"⟩, [⟨"ping", .declared ⟨"m", "Ping"⟩, none, none⟩,
      ⟨"lost", .set (.declared ⟨"m", "Missing"⟩), none, none⟩], none⟩,
    .alias ⟨⟨"m", "Ring"⟩, .external ⟨"x", "Ring"⟩ (.declared ⟨"m", "Ring"⟩), none⟩,
    .alias ⟨⟨"m", "Trail"⟩, .list (.declared ⟨"m", "Node"⟩), none⟩]

/-- What goes round in circles keeps its order, unless a chain from it leads to the missing name. -/
theorem orderable_is_greatest_tangle :
    ofDeclarations tangle = .ok ⟨tangle⟩ ∧
      Registry.orderable ⟨tangle⟩ =
        [⟨"m", "Color"⟩, ⟨"m", "Node"⟩, ⟨"m", "Ring"⟩, ⟨"m", "Trail"⟩] ∧
      OrderedByChains tangle ⟨"m", "Ring"⟩ ∧ ¬ OrderedByChains tangle ⟨"m", "Ping"⟩ ∧
      ∀ s, SelfOrdered tangle s → ⟨"m", "Pong"⟩ ∉ s := by
  have hsorted : tangle.mergeSort (fun a b => a.name.le b.name) = tangle :=
    List.mergeSort_of_pairwise (by decide)
  have hok : ofDeclarations tangle = .ok ⟨tangle⟩ :=
    ofDeclarations_ok_iff.2 ⟨by decide, by rw [hsorted]⟩
  have horderable : Registry.orderable ⟨tangle⟩ =
      [⟨"m", "Color"⟩, ⟨"m", "Node"⟩, ⟨"m", "Ring"⟩, ⟨"m", "Trail"⟩] := by decide
  obtain ⟨-, hchains, -, hgreatest⟩ := orderable_is_greatest _ _ hok
  refine ⟨hok, horderable, (hchains _).1 ?_, mt (hchains _).2 ?_, fun s hs hmem => ?_⟩
  · rw [horderable]
    decide
  · rw [horderable]
    decide
  · have hpong := hgreatest hs hmem
    rw [Set.mem_ofPred_eq, horderable] at hpong
    exact absurd hpong (by decide)

end Registry

end WireContract.Schema
