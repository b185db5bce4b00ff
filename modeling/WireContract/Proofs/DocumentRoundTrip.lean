import WireContract.Proofs.ErrorEnvelopes
import WireContract.Proofs.OutlineRoundTrip
import WireContract.Schema.Document

/-!
# Written documents

A document is written as an outline with the words for its primitives, safety annotations and error
codes.  The outline keeps types apart from errors, and the safe parameters of an error apart from
the sensitive ones; what it does not keep is how the two kinds were mixed.  So a document is read
back from its written form if its errors come last and the sensitive parameters of each error do
(`WrittenInOrder`), and then it is read back exactly.
-/

namespace WireContract.Schema

open Outcome Wire

/-! ## The outline of a document -/

/-- The type as it is written. -/
def TypeRef.expr : TypeRef → Outline.TypeExpr
  | .primitive p => .primitive p.word
  | .binary => .primitive "BINARY"
  | .optional inner => .optional inner.expr
  | .list item => .list item.expr
  | .set item => .set item.expr
  | .map key value => .map key.expr value.expr
  | .declared name => .reference name
  | .external name fallback => .external name fallback.expr

/-- The word for a safety annotation. -/
def Safety.word : Safety → String
  | .safe => "SAFE"
  | .sensitive => "UNSAFE"

/-- The field as it is written. -/
def Field.outline (f : Field) : Outline.Field :=
  ⟨f.name, f.type.expr, f.docs, f.safety.map Safety.word⟩

/-- The member as it is written, without a safety annotation. -/
def Member.outline (m : Member) : Outline.Field := ⟨m.tag, m.type.expr, m.docs, none⟩

/-- The parameter as it is written; its safety is the list that it stands in. -/
def Param.outline (p : Param) : Outline.Field := ⟨p.name, p.type.expr, p.docs, none⟩

/-- The error as it is written. -/
def ErrorDecl.outline (e : ErrorDecl) : Outline.ErrorDecl :=
  ⟨e.name, e.namespaceName, e.code.name, (e.params.filter (·.safety == .safe)).map Param.outline,
    (e.params.filter (·.safety == .sensitive)).map Param.outline, e.docs⟩

/-- The declaration as it is written among types. -/
def Declaration.typeDecl? : Declaration → Option Outline.TypeDecl
  | .alias d => some (.alias ⟨d.name, d.target.expr, d.docs⟩)
  | .enum d => some (.enum ⟨d.name, d.values, d.docs⟩)
  | .object d => some (.object ⟨d.name, d.fields.map Field.outline, d.docs⟩)
  | .union d => some (.union ⟨d.name, d.members.map Member.outline, d.docs⟩)
  | .error _ => none

/-- The declaration as it is written among errors. -/
def Declaration.errorDecl? : Declaration → Option Outline.ErrorDecl
  | .error e => some e.outline
  | _ => none

/-- The document as it is written. -/
def Document.toJson (doc : Document) : Json :=
  Outline.Document.toJson doc.version
    ⟨doc.declarations.filterMap Declaration.typeDecl?,
      doc.declarations.filterMap Declaration.errorDecl?⟩

/-! ## The words of an outline -/

lemma TypeRef.check_expr (t : TypeRef) : t.expr.check = .ok t := by
  induction t with
  | primitive p => cases p <;> rfl
  | binary => rfl
  | optional t ih | list t ih | set t ih => simp [expr, Outline.TypeExpr.check, ih]
  | map k v ihk ihv => simp [expr, Outline.TypeExpr.check, ihk, ihv]
  | declared q => rfl
  | external q t ih => simp [expr, Outline.TypeExpr.check, ih]

lemma Field.check_outline (f : Field) : f.outline.check = .ok f := by
  obtain ⟨name, type, docs, safety⟩ := f
  rcases safety with _ | _ | _ <;>
    simp [outline, Outline.Field.check, TypeRef.check_expr, Safety.word, Safety.ofWord]

lemma Member.check_outline (m : Member) : m.outline.checkMember = .ok m := by
  simp [outline, Outline.Field.checkMember, TypeRef.check_expr]

lemma Param.check_outline (p : Param) : p.outline.checkParam p.safety = .ok p := by
  simp [outline, Outline.Field.checkParam, TypeRef.check_expr]

/-- What is written of the elements that have a written form gives these elements back. -/
lemma mapM_filterMap {α β ε : Type} {write : α → Option β} {read : β → Except ε α} {l : List α}
    (h : ∀ a ∈ l, ∀ b, write a = some b → read b = .ok a) :
    (l.filterMap write).mapM read = .ok (l.filter fun a => (write a).isSome) := by
  induction l with
  | nil => rfl
  | cons a l ih =>
    rw [List.forall_mem_cons] at h
    cases hwrite : write a with
    | none => simpa [hwrite] using ih h.2
    | some b => simp [hwrite, h.1 b hwrite, ih h.2]

lemma mapM_map {α β ε : Type} {write : α → β} {read : β → Except ε α}
    {l : List α} (h : ∀ a ∈ l, read (write a) = .ok a) : (l.map write).mapM read = .ok l := by
  rw [mapM_ok_iff, List.forall₂_map_left_iff, List.forall₂_same]
  exact h

/-- A list in which the elements with a property come last is what lacks it and then what has it. -/
lemma filter_append_filter {α : Type} {p q : α → Bool} (hq : ∀ a, q a = !p a) {l : List α}
    (h : l.Pairwise fun a b => p a = true → p b = true) : l.filter q ++ l.filter p = l := by
  induction l with
  | nil => rfl
  | cons a l ih =>
    rw [List.pairwise_cons] at h
    by_cases hp : p a = true
    · have hall : ∀ b ∈ l, p b = true := fun b hb => h.1 b hb hp
      have hnone : l.filter q = [] := by
        rw [List.filter_eq_nil_iff]
        intro b hb
        simp [hq, hall b hb]
      simp [hp, hq, hnone, List.filter_eq_self.2 hall]
    · simpa [hp, hq] using ih h.2

/-- The sensitive parameters come last. -/
def ErrorDecl.WrittenInOrder (e : ErrorDecl) : Prop :=
  e.params.Pairwise fun p q => p.safety = .sensitive → q.safety = .sensitive

/-- The errors come last, and so do the sensitive parameters of each. -/
structure Document.WrittenInOrder (doc : Document) : Prop where
  errors : doc.declarations.Pairwise fun a b => a.kind = .error → b.kind = .error
  params : ∀ e, .error e ∈ doc.declarations → e.WrittenInOrder

lemma ErrorDecl.check_outline {e : ErrorDecl} (h : e.WrittenInOrder) :
    e.outline.check = .ok (.error e) := by
  have hcode := ErrorCode.ofName?_eq_some_iff.2 (rfl : e.code.name = e.code.name)
  have hparams : ∀ s : Safety, ((e.params.filter (·.safety == s)).map Param.outline).mapM
      (Outline.Field.checkParam s) = .ok (e.params.filter (·.safety == s)) := by
    intro s
    refine mapM_map fun p hp => ?_
    obtain rfl : p.safety = s := by simpa using (List.mem_filter.1 hp).2
    exact p.check_outline
  have hall : e.params.filter (·.safety == .safe) ++ e.params.filter (·.safety == .sensitive) =
      e.params := by
    refine filter_append_filter (fun p => ?_) (h.imp fun hab => by simpa using hab)
    cases p.safety <;> rfl
  simp [outline, Outline.ErrorDecl.check, hcode, hparams, hall]

lemma Declaration.check_typeDecl? {d : Declaration} {t : Outline.TypeDecl}
    (h : d.typeDecl? = some t) : t.check = .ok d := by
  cases d with
  | «alias» d =>
    obtain rfl := Option.some.inj h
    simp [Outline.TypeDecl.check, TypeRef.check_expr]
  | enum d =>
    obtain rfl := Option.some.inj h
    rfl
  | object d =>
    obtain rfl := Option.some.inj h
    simp [Outline.TypeDecl.check, mapM_map fun f _ => Field.check_outline f]
  | union d =>
    obtain rfl := Option.some.inj h
    simp [Outline.TypeDecl.check, mapM_map fun m _ => Member.check_outline m]
  | error d => cases h

lemma Declaration.isSome_errorDecl? {d : Declaration} :
    d.errorDecl?.isSome = true ↔ d.kind = .error := by
  cases d <;> simp [errorDecl?, kind]

/-- The outline of a document has the meaning that was written. -/
lemma Document.check_outline {doc : Document} (h : doc.WrittenInOrder) :
    Outline.Document.check ⟨doc.declarations.filterMap Declaration.typeDecl?,
      doc.declarations.filterMap Declaration.errorDecl?⟩ = .ok doc.declarations := by
  have htypes : (doc.declarations.filterMap Declaration.typeDecl?).mapM Outline.TypeDecl.check =
      .ok (doc.declarations.filter fun d => d.typeDecl?.isSome) :=
    mapM_filterMap fun d _ t => Declaration.check_typeDecl?
  have herrors : (doc.declarations.filterMap Declaration.errorDecl?).mapM Outline.ErrorDecl.check =
      .ok (doc.declarations.filter fun d => d.errorDecl?.isSome) := by
    refine mapM_filterMap fun d hd t ht => ?_
    cases d with
    | error e =>
      obtain rfl := Option.some.inj ht
      exact ErrorDecl.check_outline (h.params e hd)
    | _ => cases ht
  have hall : (doc.declarations.filter fun d => d.typeDecl?.isSome) ++
      (doc.declarations.filter fun d => d.errorDecl?.isSome) = doc.declarations := by
    refine filter_append_filter (fun d => ?_) (h.errors.imp fun hab ha => ?_)
    · cases d <;> rfl
    · exact Declaration.isSome_errorDecl?.2 (hab (Declaration.isSome_errorDecl?.1 ha))
  simp [Outline.Document.check, htypes, herrors, hall]

/-- A document of the supported version that is written in order is read back exactly. -/
theorem document_ofJson_toJson (doc : Document) (hversion : doc.version = 1)
    (horder : doc.WrittenInOrder) : Document.ofJson doc.toJson = .ok doc := by
  obtain ⟨version, declarations⟩ := doc
  obtain rfl : version = 1 := hversion
  have hread : Document.readVersion (Document.toJson ⟨1, declarations⟩) = .ok 1 := rfl
  have hcheck := Document.check_outline horder
  simp only [Document.ofJson, hread]
  simp only [Document.toJson, Outline.ofJson_toJson, hcheck]
  rfl

/-- A document with nested types, and an error whose parameters are of both kinds. -/
def nestedPens : Document :=
  ⟨1, [
    .object ⟨⟨"a", "Pen"⟩, [⟨"ink", .map (.primitive .string) (.optional (.list .binary)),
      some "of all colours", some .sensitive⟩], none⟩,
    .union ⟨⟨"a", "Tool"⟩, [⟨"pen", .external ⟨"b", "Any"⟩ (.set (.declared ⟨"a", "Pen"⟩)), none⟩],
      some "what draws"⟩,
    .error ⟨⟨"a", "Dry"⟩, "Pens", .notFound, [⟨"pen", .declared ⟨"a", "Pen"⟩, .safe, none⟩,
      ⟨"owner", .primitive .string, .sensitive, some "who"⟩], none⟩]⟩

/-- The document is in order and is read back from its written form. -/
theorem document_ofJson_toJson_nestedPens :
    nestedPens.version = 1 ∧ nestedPens.WrittenInOrder ∧
      Document.ofJson nestedPens.toJson = .ok nestedPens := by
  have horder : nestedPens.WrittenInOrder := by
    refine ⟨by decide, fun e he => ?_⟩
    simp only [nestedPens, List.mem_cons, reduceCtorEq, Declaration.error.injEq, List.not_mem_nil,
      false_or, or_false] at he
    subst he
    unfold ErrorDecl.WrittenInOrder
    decide
  exact ⟨rfl, horder, document_ofJson_toJson nestedPens rfl horder⟩

end WireContract.Schema
