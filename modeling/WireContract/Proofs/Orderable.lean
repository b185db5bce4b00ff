import WireContract.Proofs.References

/-!
# Which declarations have a total order

`Registry.demote` starts from all candidates and removes names until those that remain are ordered
relative to each other.  This is the greatest set of names of that kind: the result keeps its own
order (`keepsOrder_of_mem_demote`), and a set that does is never cut (`mem_demote_of_closed`).

Seen from outside the computation, a reference has an order when nothing without one is reached
from it by a chain of references (`isOrderable_orderable_iff`), and so has a declaration
(`mem_orderable_iff`).  A recursive type is thus ordered unless something on its chains is not.
-/

namespace WireContract.Schema

open Relation

/-- Stands in no way of a total order: an ordered primitive, or the name of a declaration that is
neither a union nor an error.  Everything else is ordered if its parts are. -/
def MayBeOrdered (ds : List Declaration) : TypeRef → Prop
  | .primitive p => p.isOrderable = true
  | .declared q => ∃ d ∈ ds, d.name = q ∧ d.kind ≠ .union ∧ d.kind ≠ .error
  | _ => True

namespace TypeRef

lemma isOrderable_of_mem_subterms {r t : TypeRef} {names : List QualifiedName}
    (hr : r.isOrderable names = true) (ht : t ∈ r.subterms) : t.isOrderable names = true := by
  rw [isOrderable_iff] at hr ⊢
  exact ⟨fun p hp => hr.1 p (mem_subterms_trans hp ht),
    fun q hq => hr.2 q (mem_subterms_trans hq ht)⟩

end TypeRef

namespace Registry

variable {reg : Registry} {names : List QualifiedName} {q : QualifiedName}

/-! ## The greatest set that keeps its order -/

lemma demote_subset (rounds : ℕ) (names : List QualifiedName) :
    reg.demote rounds names ⊆ names := by
  induction rounds generalizing names with
  | zero => exact List.Subset.refl _
  | succ rounds ih =>
    rw [demote]
    split
    · exact List.Subset.refl _
    · exact List.Subset.trans (ih _) (List.filter_subset_self names)

/-- Once there are as many rounds as names, what remains is ordered relative to itself. -/
lemma keepsOrder_of_mem_demote {rounds : ℕ} (hrounds : names.length ≤ rounds)
    (hq : q ∈ reg.demote rounds names) : reg.keepsOrder (reg.demote rounds names) q = true := by
  induction rounds generalizing names with
  | zero =>
    have hnil : names = [] := List.eq_nil_of_length_eq_zero (Nat.le_zero.1 hrounds)
    rw [demote, hnil] at hq
    exact (List.not_mem_nil hq).elim
  | succ rounds ih =>
    rw [demote] at hq ⊢
    by_cases hlen : (names.filter (reg.keepsOrder names)).length = names.length
    · rw [if_pos (beq_iff_eq.2 hlen)] at hq ⊢
      exact List.length_filter_eq_length_iff.1 hlen q hq
    · rw [if_neg (fun h => hlen (beq_iff_eq.1 h))] at hq ⊢
      have hle := List.length_filter_le (reg.keepsOrder names) names
      exact ih (by omega) hq

/-- Names that keep their order relative to every set around them are never removed. -/
lemma mem_demote_of_closed {T : QualifiedName → Prop}
    (hT : ∀ names, (∀ q, T q → q ∈ names) → ∀ q, T q → reg.keepsOrder names q = true)
    (rounds : ℕ) (hnames : ∀ q, T q → q ∈ names) (hq : T q) : q ∈ reg.demote rounds names := by
  induction rounds generalizing names with
  | zero => exact hnames q hq
  | succ rounds ih =>
    rw [demote]
    split
    · exact hnames q hq
    · exact ih fun q' hq' => List.mem_filter.2 ⟨hnames q' hq', hT names hnames q' hq'⟩

lemma mem_orderCandidates_iff :
    q ∈ reg.orderCandidates ↔ MayBeOrdered reg.declarations (.declared q) := by
  simp only [orderCandidates, MayBeOrdered, List.mem_map, List.mem_filter, Bool.and_eq_true,
    bne_iff_ne, ne_eq]
  constructor
  · rintro ⟨d, ⟨hd, hkind⟩, hname⟩
    exact ⟨d, hd, hname, hkind⟩
  · rintro ⟨d, hd, hname, hkind⟩
    exact ⟨d, ⟨hd, hkind⟩, hname⟩

lemma keepsOrder_of_mem_orderable (hq : q ∈ reg.orderable) :
    reg.keepsOrder reg.orderable q = true := by
  refine keepsOrder_of_mem_demote ?_ hq
  have hle : reg.orderCandidates.length ≤ reg.size := by
    rw [orderCandidates, List.length_map]
    exact List.length_filter_le _ _
  omega

/-! ## Order as the absence of chains -/

lemma mayBeOrdered_of_isOrderable {t : TypeRef} (ht : t.isOrderable reg.orderable = true) :
    MayBeOrdered reg.declarations t := by
  cases t with
  | primitive p => exact ht
  | declared q =>
    have hmem : q ∈ reg.orderable := by simpa [TypeRef.isOrderable] using ht
    exact mem_orderCandidates_iff.1 (demote_subset _ _ hmem)
  | _ => trivial

/-- Along a chain of references, order is passed on. -/
lemma Indexed.isOrderable_of_chain (hreg : reg.Indexed) {r t : TypeRef}
    (hr : r.isOrderable reg.orderable = true) (h : Chain reg.declarations r t) :
    t.isOrderable reg.orderable = true := by
  induction h with
  | refl => exact hr
  | tail _ hstep ih =>
    cases hstep with
    | part hpart => exact TypeRef.isOrderable_of_mem_subterms ih hpart
    | @enter d _ _ hd hr' =>
      have hmem : d.name ∈ reg.orderable := by simpa [TypeRef.isOrderable] using ih
      have hkeeps := keepsOrder_of_mem_orderable hmem
      rw [keepsOrder, hreg.get?_name hd] at hkeeps
      exact List.all_eq_true.1 hkeeps _ hr'

/-- A name is orderable if nothing on its chains is in the way. -/
lemma mem_orderable_of_chains
    (hq : ∀ t, Chain reg.declarations (.declared q) t → MayBeOrdered reg.declarations t) :
    q ∈ reg.orderable := by
  -- the names with this property are closed: their references lead to nothing new
  refine mem_demote_of_closed
    (T := fun q => ∀ t, Chain reg.declarations (.declared q) t → MayBeOrdered reg.declarations t)
    ?_ _ (fun q' hq' => mem_orderCandidates_iff.2 (hq' _ .refl)) hq
  intro names hnames q' hq'
  rw [keepsOrder]
  cases hget : reg.get? q' with
  | none => rfl
  | some d =>
    obtain ⟨hd, rfl⟩ := mem_of_get? hget
    refine List.all_eq_true.2 ?_
    rintro ⟨member, r⟩ hr
    have hchain : ∀ t ∈ r.subterms, Chain reg.declarations (.declared d.name) t := fun t ht =>
      .tail (.single (.enter hd hr)) (.part ht)
    refine TypeRef.isOrderable_iff.2 ⟨fun p hp => hq' _ (hchain _ hp), fun q'' hmem => ?_⟩
    exact hnames q'' fun t ht => hq' t ((hchain _ hmem).trans ht)

/-- A reference has an order exactly if no chain of references from it ends at something that
stands in the way of one. -/
theorem Indexed.isOrderable_orderable_iff (hreg : reg.Indexed) {r : TypeRef} :
    r.isOrderable reg.orderable = true ↔
      ∀ t, Chain reg.declarations r t → MayBeOrdered reg.declarations t := by
  constructor
  · intro hr t ht
    exact mayBeOrdered_of_isOrderable (hreg.isOrderable_of_chain hr ht)
  · intro h
    refine TypeRef.isOrderable_iff.2 ⟨fun p hp => h _ (.single (.part hp)), fun q hq => ?_⟩
    exact mem_orderable_of_chains fun t ht => h t (.head (.part hq) ht)

/-- The declarations with ordered values are those from which nothing unordered is reached. -/
theorem Indexed.mem_orderable_iff (hreg : reg.Indexed) :
    q ∈ reg.orderable ↔
      ∀ t, Chain reg.declarations (.declared q) t → MayBeOrdered reg.declarations t := by
  rw [← hreg.isOrderable_orderable_iff]
  simp [TypeRef.isOrderable]

end Registry

end WireContract.Schema
