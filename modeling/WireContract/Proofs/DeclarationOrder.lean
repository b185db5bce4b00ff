import WireContract.Emit.Package
import WireContract.Proofs.Acceptance

/-!
# The order of declarations does not matter

A registry lists its declarations by name.  Names are ordered totally and no two declarations share
one, so there is one such list for all orders in which a document may give its declarations
(`Registry.ofDeclarations_perm`).  All else that a contract has is found out from its registry.  So
a document becomes the same contract in whatever order it gives its declarations
(`Contract.ofDocument_perm`), and what is emitted is the same to the letter.
-/

namespace WireContract.Schema

/-! ## The order of names -/

namespace QualifiedName

lemma le_total (a b : QualifiedName) : a.le b = true ∨ b.le a = true := by
  rw [le_iff_key, le_iff_key]
  exact total_of (· ≤ ·) a.key b.key

lemma le_antisymm {a b : QualifiedName} (hab : a.le b = true) (hba : b.le a = true) : a = b :=
  key_injective ((le_iff_key.1 hab).antisymm (le_iff_key.1 hba))

lemma le_trans {a b c : QualifiedName} (hab : a.le b = true) (hbc : b.le c = true) :
    a.le c = true :=
  le_iff_key.2 ((le_iff_key.1 hab).trans (le_iff_key.1 hbc))

end QualifiedName

/-! ## Registries -/

namespace Registry

/-- The declarations of a registry come in the order of their names. -/
lemma pairwise_of_ofDeclarations {ds : List Declaration} {reg : Registry}
    (h : ofDeclarations ds = .ok reg) :
    reg.declarations.Pairwise fun a b => a.name.le b.name = true := by
  rw [(ofDeclarations_ok_iff.1 h).2]
  have htrans : ∀ a b c : Declaration, a.name.le b.name = true → b.name.le c.name = true →
      a.name.le c.name = true := fun a b c => QualifiedName.le_trans
  have htotal : ∀ a b : Declaration, (a.name.le b.name || b.name.le a.name) = true := by
    intro a b
    rw [Bool.or_eq_true]
    exact QualifiedName.le_total a.name b.name
  exact List.pairwise_mergeSort htrans htotal ds

/-- Registries of the same declarations are equal. -/
lemma eq_of_perm {ds ds' : List Declaration} (hperm : ds.Perm ds') {reg reg' : Registry}
    (h : ofDeclarations ds = .ok reg) (h' : ofDeclarations ds' = .ok reg') : reg = reg' := by
  have hsame : reg.declarations.Perm reg'.declarations :=
    (perm_of_ofDeclarations h).trans (hperm.trans (perm_of_ofDeclarations h').symm)
  have hdeclarations : reg.declarations = reg'.declarations := by
    refine List.Perm.eq_of_pairwise (fun a b ha hb hab hba => ?_) (pairwise_of_ofDeclarations h)
      (pairwise_of_ofDeclarations h') hsame
    exact (indexed_of_ofDeclarations h).eq_of_name_eq ha (hsame.mem_iff.2 hb)
      (QualifiedName.le_antisymm hab hba)
  cases reg
  cases reg'
  exact congrArg Registry.mk hdeclarations

/-- Declarations in another order form the same registry. -/
theorem ofDeclarations_perm {ds ds' : List Declaration} (hperm : ds.Perm ds') {reg : Registry}
    (h : ofDeclarations ds = .ok reg) : ofDeclarations ds' = .ok reg := by
  have hdistinct : (ds'.map Declaration.name).Nodup :=
    (hperm.map _).nodup_iff.1 (ofDeclarations_ok_iff.1 h).1
  have h' := ofDeclarations_ok_iff.2 ⟨hdistinct, rfl⟩
  rw [eq_of_perm hperm h h', h']

end Registry

/-! ## Contracts -/

/-- A document with its declarations in another order becomes the same contract. -/
theorem Contract.ofDocument_perm {doc : Document} {ds : List Declaration}
    (hperm : ds.Perm doc.declarations) {c : Contract} :
    Contract.ofDocument { doc with declarations := ds } = .ok c ↔
      Contract.ofDocument doc = .ok c := by
  rw [Contract.ofDocument_ok_iff, Contract.ofDocument_ok_iff]
  refine and_congr ?_ (exists_congr fun reg => and_congr_left' ?_)
  · exact forall_congr' fun d => imp_congr_left hperm.mem_iff
  · exact ⟨Registry.ofDeclarations_perm hperm, Registry.ofDeclarations_perm hperm.symm⟩

end WireContract.Schema

/-! ## Emission -/

namespace WireContract.Emit

open Schema

/-- What comes of emitting a contract: the files with their texts and the text of the whole tree as
one file, or the error. -/
def outcome (c : Contract) (o : Options) : Except EmitError (List Rendered × String) :=
  (emit c o).map fun f => (f.render, f.bundleText)

/-- A document is accepted or refused in whatever order it gives its declarations, and where it is
accepted the outcome of emission is the same for all orders and under all options. -/
theorem emission_ignores_declaration_order (doc : Document) (ds : List Declaration)
    (hperm : ds.Perm doc.declarations) :
    ((∃ c, Contract.ofDocument doc = .ok c) ↔
      ∃ c, Contract.ofDocument { doc with declarations := ds } = .ok c) ∧
    ∀ c c', Contract.ofDocument doc = .ok c →
      Contract.ofDocument { doc with declarations := ds } = .ok c' →
        ∀ o, outcome c o = outcome c' o := by
  refine ⟨exists_congr fun c => (Contract.ofDocument_perm hperm).symm, fun c c' hc hc' o => ?_⟩
  rw [Contract.ofDocument_perm hperm, hc] at hc'
  rw [Except.ok.inj hc']

/-- An object that holds an alias of another module. -/
def crossModule : Document :=
  let shade : QualifiedName := ⟨"ink", "Shade"⟩
  ⟨1, [.object ⟨⟨"pens", "Pen"⟩, [⟨"shade", .declared shade, none, none⟩], none⟩,
    .alias ⟨shade, .primitive .string, none⟩]⟩

lemma isOk_crossModule : (Contract.ofDocument crossModule).isOk = true :=
  Contract.isOk_of_ranked (fun m => if m = "pens" then 1 else 0) (by decide) rfl rfl (by decide)

/-- Given backwards, these declarations are another list, but they become a contract too and what is
emitted for it is the same. -/
theorem emission_ignores_declaration_order_crossModule :
    crossModule.declarations.reverse ≠ crossModule.declarations ∧
    ∃ c c', Contract.ofDocument crossModule = .ok c ∧
      Contract.ofDocument
        { crossModule with declarations := crossModule.declarations.reverse } = .ok c' ∧
      ∀ o, outcome c o = outcome c' o := by
  obtain ⟨haccepted, houtcome⟩ := emission_ignores_declaration_order crossModule
    crossModule.declarations.reverse (List.reverse_perm _)
  have hc := Outcome.exists_ok_of_isOk isOk_crossModule
  obtain ⟨c', hc'⟩ := haccepted.1 hc
  obtain ⟨c, hc⟩ := hc
  exact ⟨by decide, c, c', hc, hc', houtcome c c' hc hc'⟩

end WireContract.Emit
