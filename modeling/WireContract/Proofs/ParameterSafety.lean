import WireContract.Proofs.DocumentRoundTrip
import WireContract.Proofs.EmittedNames
import WireContract.Proofs.ErrorEnvelopes
import WireContract.Proofs.Evaluation
import WireContract.Proofs.RecordParts
import WireContract.Proofs.UnionRoundTrip
import WireContract.Sample.Canvas

/-!
# Safe and sensitive parameters

The parameters of an error are safe or sensitive, by the key under which a document has them.  From
there on each parameter carries its safety, and what is emitted says it three times: in the list of
safe names, in the list of sensitive names, and in the record of all parameters.  An occurrence is
split at last by looking up the names of its parameters in the two lists.

The module follows a parameter along this way.  `Outline.Declares` is what the text says,
`ErrorDecl.HasArgs` what the declaration says, `ListsArgs` what the emitted items say and
`Occurrence.Splits` what becomes of an occurrence.  The last step needs that no name is in both
lists, which the rules for declarations give, and that a parameter without a value is missing from
the JSON and not out of its order there (`sublist_encodeFields`).
-/

namespace WireContract.Schema.Outline

open Json Outcome

/-! ## Names of declared arguments -/

/-- The keys of a document, in the order of an array. -/
def documentKeys : List String := ["types", "errors", "services", "extensions"]

/-- The keys of an error, in the order of an array. -/
def errorKeys : List String :=
  ["errorName", "namespace", "code", "safeArgs", "unsafeArgs", "docs"]

/-- The keys of an argument, in the order of an array. -/
def fieldKeys : List String := ["fieldName", "type", "docs", "safety"]

/-- The arguments that are written for an error under a key have the given names, in order. -/
def Declares (key : String) (error : Json) (names : List String) : Prop :=
  List.Forall₂ (fun arg name => arg.part? fieldKeys "fieldName" = some (.str name))
    (error.itemsUnder errorKeys key) names

/-- What is written determines the names. -/
lemma Declares.unique {key : String} {error : Json} {names names' : List String}
    (h : Declares key error names) (h' : Declares key error names') : names = names' := by
  have hright : Relator.RightUnique fun (arg : Json) (name : String) =>
      arg.part? fieldKeys "fieldName" = some (.str name) := by
    intro arg name name' hname hname'
    exact Json.str.inj (Option.some.inj (hname.symm.trans hname'))
  exact hright.forall₂ h h'

section Read

variable {fuel : ℕ} {r : Reader} {j : Json}

lemma eq_str_of_text {s : String} (h : text (Draft.ofJson j) = .ok s) : j = .str s := by
  cases j with
  | str t => exact congrArg Json.str (Except.ok.inj h)
  | null | bool | num | arr | obj => exact absurd h unexpected_ne_ok

/-- An argument that was read has the name that is written for it. -/
lemma fieldName_of_readField (hj : j.distinct = j) {f : Field}
    (h : readField fuel r (Draft.ofJson j) = .ok f) :
    j.part? fieldKeys "fieldName" = some (.str f.name) := by
  obtain ⟨hmissing, hthere⟩ := view_of_readRecord Field.name (independent_fieldRules _).names
    (List.mem_cons_self) (fun _ _ => rfl)
    (by simp [fieldRules, docsField, RecordField.keeps_setting]) hj h
  cases hx : j.part? fieldKeys "fieldName" with
  | none => exact absurd rfl (hmissing hx).1
  | some x => rw [eq_str_of_text (hthere x hx)]

/-- Arguments that were read one by one have the names that are written for them. -/
lemma forall₂_fieldName {items : List Json} (hitems : ∀ x ∈ items, x.distinct = x)
    {args : List Field}
    (h : List.Forall₂ (fun x f => readField fuel r (Draft.ofJson x) = .ok f) items args) :
    List.Forall₂ (fun x name => x.part? fieldKeys "fieldName" = some (.str name)) items
      (args.map (·.name)) := by
  induction h with
  | nil => exact .nil
  | cons hread _ ih =>
    obtain ⟨hx, hitems⟩ := List.forall_mem_cons.1 hitems
    exact .cons (fieldName_of_readField hx hread) (ih hitems)

/-- The arguments of an error that was read are those written for it, the safe ones and the
sensitive ones each under their own key. -/
lemma declares_of_readError (hj : j.distinct = j) {e : ErrorDecl}
    (h : readError fuel r (Draft.ofJson j) = .ok e) :
    Declares "safeArgs" j (e.safeArgs.map (·.name)) ∧
      Declares "unsafeArgs" j (e.sensitiveArgs.map (·.name)) := by
  have hkeys : ∀ key, ∀ x ∈ j.itemsUnder errorKeys key, x.distinct = x :=
    fun _ _ hx => distinct_of_mem_itemsUnder hj hx
  have hsafe : .setting "safeArgs" .defaulted (fun r => readList r (readField fuel))
      (fun safeArgs e => { e with safeArgs }) ∈ errorRules fuel := by simp [errorRules]
  have hsensitive : .setting "unsafeArgs" .defaulted (fun r => readList r (readField fuel))
      (fun sensitiveArgs e => { e with sensitiveArgs }) ∈ errorRules fuel := by simp [errorRules]
  constructor
  · apply forall₂_fieldName (hkeys "safeArgs")
    exact forall₂_itemsUnder ErrorDecl.safeArgs (independent_errorRules _).names hsafe
      (fun _ _ => rfl) (by simp [errorRules, docsField, RecordField.keeps_setting]) rfl hj h
  · apply forall₂_fieldName (hkeys "unsafeArgs")
    exact forall₂_itemsUnder ErrorDecl.sensitiveArgs (independent_errorRules _).names hsensitive
      (fun _ _ => rfl) (by simp [errorRules, docsField, RecordField.keeps_setting]) rfl hj h

/-- The errors of a document that was read are those written for it. -/
lemma forall₂_errors (hj : j.distinct = j) {outline : Document} (h : ofJson j = .ok outline) :
    List.Forall₂ (fun x e => ∃ fuel r, readError fuel r (Draft.ofJson x) = .ok e)
      (j.itemsUnder documentKeys "errors") outline.errors := by
  have herrors : .setting "errors" .defaulted (fun r => readList r (readError (j.depth + 1)))
      (fun errors o => { o with errors }) ∈ documentRules (j.depth + 1) := by simp [documentRules]
  have hread := forall₂_itemsUnder Document.errors (independent_documentRules _).names herrors
    (fun _ _ => rfl) (by simp [documentRules, RecordField.keeps_setting]) rfl hj h
  exact hread.imp fun x e hx => ⟨_, _, hx⟩

end Read

end WireContract.Schema.Outline

namespace WireContract.Schema

open Outcome

/-! ## Parameters by their safety -/

/-- The parameters made of a list of arguments have the names of the arguments and one safety. -/
lemma names_of_checkParam {safety : Safety} {args : List Outline.Field} {params : List Param}
    (h : args.mapM (Outline.Field.checkParam safety) = .ok params) :
    params.map (·.name) = args.map (·.name) ∧ ∀ p ∈ params, p.safety = safety := by
  have hparams := mapM_ok_iff.1 h
  clear h
  induction hparams with
  | nil => exact ⟨rfl, by simp⟩
  | cons hcheck _ ih =>
    obtain ⟨t, -, hp⟩ := bind_ok_iff.1 hcheck
    obtain rfl := pure_ok_iff.1 hp
    exact ⟨by rw [List.map_cons, List.map_cons, ih.1], List.forall_mem_cons.2 ⟨rfl, ih.2⟩⟩

/-- The parameters with one safety are those of one of the two lists that were put together. -/
lemma filter_safety_append {first second : List Param} {a b : Safety} (hne : a ≠ b)
    (hfirst : ∀ p ∈ first, p.safety = a) (hsecond : ∀ p ∈ second, p.safety = b) :
    (first ++ second).filter (·.safety == a) = first ∧
      (first ++ second).filter (·.safety == b) = second := by
  constructor
  · rw [List.filter_append, List.filter_eq_self.2, List.filter_eq_nil_iff.2, List.append_nil]
    · intro p hp
      simp [hsecond p hp, hne.symm]
    · intro p hp
      simp [hfirst p hp]
  · rw [List.filter_append, List.filter_eq_nil_iff.2, List.filter_eq_self.2, List.nil_append]
    · intro p hp
      simp [hsecond p hp]
    · intro p hp
      simp [hfirst p hp, hne]

/-- The parameters of an error have the given names: the safe ones, and then the sensitive ones. -/
structure ErrorDecl.HasArgs (e : ErrorDecl) (safe sensitive : List String) : Prop where
  argsWith_safe : e.argsWith .safe = safe
  argsWith_sensitive : e.argsWith .sensitive = sensitive
  params : e.params.map (·.name) = safe ++ sensitive

lemma ErrorDecl.HasArgs.disjoint {e : ErrorDecl} {safe sensitive : List String}
    (h : e.HasArgs safe sensitive) (hnodup : (e.params.map (·.name)).Nodup) :
    safe.Disjoint sensitive := by
  rw [h.params] at hnodup
  exact List.disjoint_of_nodup_append hnodup

/-- An error has the arguments of its outline for parameters, the safe ones first. -/
lemma hasArgs_of_check {raw : Outline.ErrorDecl} {d : Declaration} (h : raw.check = .ok d) :
    ∃ e, d = .error e ∧
      e.HasArgs (raw.safeArgs.map (·.name)) (raw.sensitiveArgs.map (·.name)) := by
  unfold Outline.ErrorDecl.check at h
  split at h
  · cases h
  · simp only [bind_ok_iff, pure_ok_iff] at h
    obtain ⟨safe, hsafe, sensitive, hsensitive, rfl⟩ := h
    obtain ⟨hsafe, hsafeTag⟩ := names_of_checkParam hsafe
    obtain ⟨hsensitive, hsensitiveTag⟩ := names_of_checkParam hsensitive
    obtain ⟨hfirst, hsecond⟩ := filter_safety_append (by decide) hsafeTag hsensitiveTag
    refine ⟨_, rfl, ?_, ?_, ?_⟩
    · rw [ErrorDecl.argsWith, hfirst, hsafe]
    · rw [ErrorDecl.argsWith, hsecond, hsensitive]
    · rw [List.map_append, hsafe, hsensitive]

/-- A declaration of a type is no error. -/
lemma Outline.TypeDecl.check_ne_error {t : TypeDecl} {e : Schema.ErrorDecl} :
    t.check ≠ .ok (.error e) := by
  cases t <;> simp [TypeDecl.check]

lemma exists_errors_of_forall₂ {raws : List Outline.ErrorDecl} {ds : List Declaration}
    (h : List.Forall₂ (fun raw d => raw.check = .ok d) raws ds) :
    ∃ errors : List ErrorDecl, ds = errors.map .error ∧ List.Forall₂ (fun raw e =>
      e.HasArgs (raw.safeArgs.map (·.name)) (raw.sensitiveArgs.map (·.name))) raws errors := by
  induction h with
  | nil => exact ⟨[], rfl, .nil⟩
  | cons hcheck _ ih =>
    obtain ⟨errors, rfl, herrors⟩ := ih
    obtain ⟨e, rfl, he⟩ := hasArgs_of_check hcheck
    exact ⟨e :: errors, rfl, .cons he herrors⟩

/-- The errors among the declarations of an outline are those made of its errors, in order. -/
lemma exists_errors_of_check {outline : Outline.Document} {ds : List Declaration}
    (h : outline.check = .ok ds) : ∃ errors : List ErrorDecl,
      (∀ e, .error e ∈ ds ↔ e ∈ errors) ∧ List.Forall₂ (fun raw e =>
        e.HasArgs (raw.safeArgs.map (·.name)) (raw.sensitiveArgs.map (·.name)))
        outline.errors errors := by
  simp only [Outline.Document.check, bind_ok_iff, pure_ok_iff, mapM_ok_iff] at h
  obtain ⟨types, htypes, checked, hchecked, rfl⟩ := h
  have hnone : ∀ e, .error e ∉ types := by
    intro e he
    obtain ⟨t, -, ht⟩ := exists_of_mem_forall₂ htypes he
    exact Outline.TypeDecl.check_ne_error ht
  obtain ⟨errors, rfl, herrors⟩ := exists_errors_of_forall₂ hchecked
  refine ⟨errors, fun e => ?_, herrors⟩
  simp [hnone e]

/-- A value is read as a document in two steps: as an outline, and the outline as declarations. -/
lemma Document.exists_outline {v : Json} {doc : Document} (h : Document.ofJson v = .ok doc) :
    ∃ outline, Outline.ofJson v = .ok outline ∧ outline.check = .ok doc.declarations := by
  obtain ⟨version, -, h⟩ := bind_ok_iff.1 h
  split at h
  · cases h
  case h_2 outline houtline =>
    split at h
    · cases h
    case h_2 ds hds =>
      obtain rfl := pure_ok_iff.1 h
      exact ⟨outline, houtline, hds⟩

/-- A contract is loaded in three steps: a value is read from the text, a document from the value
and the contract from the document. -/
lemma Contract.load_ok_iff {text : String} {c : Contract} : Contract.load text = .ok c ↔
    ∃ v doc, Json.parse text = .ok v ∧ Document.ofJson v = .ok doc ∧
      Contract.ofDocument doc = .ok c := by
  rw [Contract.load, bind_ok_iff]
  unfold Document.parse
  cases Json.parse text with
  | error fault => simp
  | ok v => simp

/-- A value that was read from a text has each key of an object once. -/
lemma distinct_of_parse {text : String} {v : Json} (h : Json.parse text = .ok v) :
    v.distinct = v := by
  obtain ⟨w, hcomplete, hend⟩ := bind_ok_iff.1 h
  split at hend
  · obtain rfl := pure_ok_iff.1 hend
    exact Json.Draft.complete_distinct hcomplete
  · cases hend

/-- The errors of a contract, in the order in which its text has them: each has the parameters that
are written for it. -/
theorem Contract.exists_errors {text : String} {c : Contract} (h : Contract.load text = .ok c) :
    ∃ v errors, Json.parse text = .ok v ∧ (∀ e, .error e ∈ c.registry.declarations ↔ e ∈ errors) ∧
      List.Forall₂ (fun j e => (Declaration.error e).WellFormed ∧ ∃ safe sensitive,
          Outline.Declares "safeArgs" j safe ∧ Outline.Declares "unsafeArgs" j sensitive ∧
          e.HasArgs safe sensitive)
        (v.itemsUnder Outline.documentKeys "errors") errors := by
  obtain ⟨v, doc, hv, hdoc, hc⟩ := Contract.load_ok_iff.1 h
  have hdistinct := distinct_of_parse hv
  obtain ⟨outline, houtline, hcheck⟩ := Document.exists_outline hdoc
  obtain ⟨errors, hmem, hargs⟩ := exists_errors_of_check hcheck
  have hof := Contract.of_ofDocument hc
  have hmem' : ∀ e, .error e ∈ c.registry.declarations ↔ e ∈ errors :=
    fun e => hof.perm.mem_iff.trans (hmem e)
  refine ⟨v, errors, hv, hmem', ?_⟩
  -- item by item: the value, its outline and the error made of that
  have hvalues : ∀ j ∈ v.itemsUnder Outline.documentKeys "errors", j.distinct = j :=
    fun j hj => Json.distinct_of_mem_itemsUnder hdistinct hj
  have hread := Outline.forall₂_errors hdistinct houtline
  rw [List.forall₂_iff_get] at hread hargs ⊢
  refine ⟨hread.1.trans hargs.1, fun i hi hi' => ?_⟩
  obtain ⟨fuel, r, hraw⟩ := hread.2 i hi (hread.1 ▸ hi)
  obtain ⟨hsafe, hsensitive⟩ := Outline.declares_of_readError (hvalues _ (List.get_mem _ _)) hraw
  have hwell := hof.lawful.wellFormed _ ((hmem' _).2 (List.get_mem errors ⟨i, hi'⟩))
  exact ⟨hwell, _, _, hsafe, hsensitive, hargs.2 i (hread.1 ▸ hi) hi'⟩

end WireContract.Schema

namespace WireContract.Rust

/-! ## What items say of names -/

/-- The list of string literals that a member of an implementation is, if it is a constant of the
name. -/
def ImplMember.literals? (name : String) : ImplMember → Option (List String)
  | .const _ n _ (.reference _ (.literals items)) => if n = name then some items else none
  | _ => none

lemma ImplMember.literals?_function {name : String} {attrs : List Attr} {isPublic : Bool}
    {s : Signature} {b : Body} : ImplMember.literals? name (.function attrs isPublic s b) = none :=
  rfl

/-- The lists of string literals that an item has for constants of a name, of the type at a path. -/
def Item.literals (self : Path) (name : String) : Item → List (List String)
  | .impl _ none s members =>
    if s.path? = some self then members.filterMap (ImplMember.literals? name) else []
  | _ => []

/-- The fields of the record that an item is, if it has the name. -/
def Item.record? (name : Ident) : Item → Option (List RecordField)
  | .struct _ _ n (.named fields) => if n = name then some fields else none
  | _ => none

/-- The name that an argument of an attribute gives. -/
def AttrArg.rename? : AttrArg → Option String
  | .keyed key value => if key = "rename" then some value else none
  | .path _ => none

/-- The name that an attribute gives in JSON. -/
def Attr.rename? : Attr → Option String
  | .list p args => if p = .ofWords ["serde"] then args.findSome? AttrArg.rename? else none
  | _ => none

/-- The name of a field in JSON: the one that it is given, and its own if there is none. -/
def RecordField.wireName (f : RecordField) : String :=
  (f.attrs.findSome? Attr.rename?).getD f.name.text

end WireContract.Rust

namespace WireContract.Emit

open Rust Schema

/-! ## What is emitted for an error -/

/-- The items of an error list the given names of parameters, and the fields of the record of its
parameters are those of both lists. -/
structure ListsArgs (items : List Item) (name : String) (safe sensitive : List String) :
    Prop where
  safeArgs : items.flatMap (Item.literals (.ofIdent (.ofName name)) "SAFE_ARGS") = [safe]
  sensitiveArgs : items.flatMap (Item.literals (.ofIdent (.ofName name)) "UNSAFE_ARGS") =
    [sensitive]
  record : ∃ fields, items.filterMap (Item.record? (.companion name parametersSuffix)) = [fields] ∧
    fields.map (·.wireName) = safe ++ sensitive

/-- A field has the key that it is emitted for, whatever its documentation says. -/
@[simp] lemma wireName_fieldOf (scope : Scope) (key : String) (r : TypeRef) (docs : Option String)
    (boxed : Bool) : (fieldOf scope key r docs boxed).wireName = key := by
  have hdocs : (docLines docs).findSome? Attr.rename? = none := by
    cases docs with
    | none => rfl
    | some docs => simp [docLines, Attr.rename?]
  have hattr : (fieldAttr scope key r).rename? = some key := by
    unfold fieldAttr
    cases scope.contract.registry.fieldRule r <;>
      simp [Attr.ofArgs, Attr.rename?, AttrArg.rename?]
  unfold RecordField.wireName fieldOf
  simp [hdocs, hattr]

lemma literals_errorItems (scope : Scope) (server : Bool) (e : ErrorDecl) (name : String) :
    (errorItems scope server e).flatMap (Item.literals (.ofIdent (.ofName e.name.name)) name) =
      (holderConstants scope e ++ holderFunctions scope e).filterMap
        (ImplMember.literals? name) := by
  cases server <;>
    simp [errorItems, parametersItem, holderInterface, holderCodec, serverItems, displayImpl,
      serializeImpl, deserializeImpl, getter, Item.literals, ownType, Ty.ofPath, Ty.path?,
      ImplMember.literals?_function]

lemma record?_errorItems (scope : Scope) (server : Bool) {e : ErrorDecl}
    (he : (Declaration.error e).WellFormed) :
    (errorItems scope server e).filterMap
      (Item.record? (.companion e.name.name parametersSuffix)) = [paramFields scope e] := by
  have hne : Ident.ofName e.name.name ≠ .companion e.name.name parametersSuffix := by
    intro heq
    have hown : Text.Alphanumeric e.name.name :=
      he.alphanumeric (q := e.name) (by simp [Declaration.generatedNames, Declaration.name])
    have hcompanion : Text.Alphanumeric (e.name.name ++ parametersSuffix) :=
      he.alphanumeric (q := ⟨e.name.module, e.name.name ++ parametersSuffix⟩) (by
        simp [Declaration.generatedNames, Declaration.companions, parametersSuffix])
    have hlength := congrArg String.length (Ident.ofName_inj hown hcompanion heq)
    rw [String.length_append] at hlength
    have hsuffix : parametersSuffix.length = 10 := rfl
    omega
  cases server <;>
    simp [errorItems, parametersItem, holderInterface, holderCodec, serverItems, displayImpl,
      serializeImpl, deserializeImpl, Item.record?, hne]

/-- What is emitted for an error with the given arguments lists them. -/
lemma listsArgs_errorItems {e : ErrorDecl} {safe sensitive : List String}
    (h : e.HasArgs safe sensitive) (he : (Declaration.error e).WellFormed) (scope : Scope)
    (server : Bool) : ListsArgs (errorItems scope server e) e.name.name safe sensitive := by
  refine ⟨?_, ?_, _, record?_errorItems scope server he, ?_⟩
  · rw [literals_errorItems, ← h.argsWith_safe]
    rfl
  · rw [literals_errorItems, ← h.argsWith_sensitive]
    rfl
  · rw [← h.params, paramFields, List.map_map]
    simp [Function.comp_def]

end WireContract.Emit

namespace WireContract.Wire

open Json Outcome Schema

/-! ## Occurrences of an error -/

/-- An occurrence as it comes about: one that was read, or one made of an identifier and a record
of parameters. -/
inductive Occurrence.Arises (reg : Registry) (e : ErrorDecl) : Occurrence → Prop where
  | decoded {r : Reader} {d : Draft} {o : Occurrence} (h : Occurrence.read reg e r d = .ok o) :
      Arises reg e o
  | constructed (id : Uuid) (values : List Value) : Arises reg e ⟨id, some (.record values)⟩

/-- The parameters of an occurrence are split in two: those with the names of safe ones come first,
and no name is in both parts. -/
structure Occurrence.Splits (reg : Registry) (e : ErrorDecl) (safe sensitive : List String)
    (o : Occurrence) : Prop where
  parts : o.parametersWith reg e .safe ++ o.parametersWith reg e .sensitive = o.parameters reg e
  disjoint : ((o.parametersWith reg e .safe).map Prod.fst).Disjoint
    ((o.parametersWith reg e .sensitive).map Prod.fst)
  safeNames : ∀ p ∈ o.parametersWith reg e .safe, p.1 ∈ safe ∧ p.1 ∉ sensitive
  sensitiveNames : ∀ p ∈ o.parametersWith reg e .sensitive, p.1 ∈ sensitive ∧ p.1 ∉ safe

section Occurrence

variable {reg : Registry} {e : ErrorDecl} {o : Occurrence}

/-- Parameters that were read are a record. -/
lemma exists_record_of_readParams {r : Reader} {d : Draft} {v : Value}
    (h : readParams reg e r d = .ok v) : ∃ values, v = .record values := by
  unfold readParams at h
  have hlimit : 0 < r.limit := by
    by_contra hzero
    rw [Nat.eq_zero_of_not_pos hzero] at h
    cases h
  rw [decodeForm_base hlimit] at h
  obtain ⟨found, -, hv⟩ := bind_ok_iff.1 h
  exact ⟨_, (pure_ok_iff.1 hv).symm⟩

/-- The parameters of an occurrence that comes about are a record, if it has any. -/
lemma Occurrence.Arises.exists_record (h : o.Arises reg e) {v : Value} (hv : o.params = some v) :
    ∃ values, v = .record values := by
  cases h with
  | decoded h =>
    obtain ⟨env, -, rfl⟩ := map_ok_iff.1 h
    unfold ofEnvelope at hv
    exact exists_record_of_readParams ((toOption_eq_iff.1 hv v).1 rfl)
  | constructed id values =>
    obtain rfl := Option.some.inj hv
    exact ⟨values, rfl⟩

/-- The names under which the fields of a record are written are names of fields, in order. -/
lemma sublist_encodeFields (reg : Registry) (fields : List Field) (values : List Value) :
    ((encodeFields reg fields values).map Prod.fst).Sublist (fields.map (·.name)) := by
  induction fields generalizing values with
  | nil => simp [encodeFields]
  | cons f fields ih =>
    cases values with
    | nil => simp [encodeFields]
    | cons v values =>
      rw [encodeFields]
      by_cases homitted : isOmitted reg f.type v = true
      · simpa [homitted] using (ih values).cons f.name
      · simpa [homitted] using ih values

/-- The names of the parameters of an occurrence are declared ones, in the order of declaration. -/
lemma Occurrence.Arises.sublist_names (h : o.Arises reg e)
    (hnodup : (e.params.map (·.name)).Nodup) :
    ((o.parameters reg e).map Prod.fst).Sublist (e.params.map (·.name)) := by
  unfold Occurrence.parameters
  cases hv : o.params with
  | none => exact List.nil_sublist _
  | some v =>
    obtain ⟨values, rfl⟩ := h.exists_record hv
    have hsub := sublist_encodeFields reg (paramsObject e).fields values
    have hnames : (paramsObject e).fields.map (·.name) = e.params.map (·.name) := by
      simp [paramsObject, Function.comp_def]
    rw [hnames] at hsub
    have hkeys : (([] ++ encodeFields reg (paramsObject e).fields values).map Prod.fst).Nodup :=
      hnodup.sublist hsub
    simp only [Option.map_some, paramsJson, encodeBase, distinct,
      distinctFields_eq_of_nodup hkeys]
    simpa [Function.comp_def] using hsub

/-- Entries whose keys come from two lists, in the order of the lists, are those with keys from the
first and then those with keys from the second. -/
lemma filter_append_filter_of_sublist {α : Type} {l : List (String × α)}
    {first second : List String} (hsub : (l.map Prod.fst).Sublist (first ++ second))
    (hdisjoint : first.Disjoint second) :
    l.filter (fun p => first.contains p.1) ++ l.filter (fun p => second.contains p.1) = l := by
  obtain ⟨firstKeys, secondKeys, hkeys, hfirst, hsecond⟩ := List.sublist_append_iff.1 hsub
  obtain ⟨l₁, l₂, rfl, rfl, rfl⟩ := List.map_eq_append_iff.1 hkeys
  have hin₁ : ∀ p ∈ l₁, p.1 ∈ first := fun p hp => hfirst.subset (List.mem_map_of_mem hp)
  have hin₂ : ∀ p ∈ l₂, p.1 ∈ second := fun p hp => hsecond.subset (List.mem_map_of_mem hp)
  have hout₁ : ∀ p ∈ l₁, p.1 ∉ second := fun p hp => hdisjoint (hin₁ p hp)
  have hout₂ : ∀ p ∈ l₂, p.1 ∉ first := fun p hp hmem => hdisjoint hmem (hin₂ p hp)
  simp only [List.contains_eq_mem, List.filter_append]
  rw [List.filter_eq_self.2 (by simpa using hin₁), List.filter_eq_nil_iff.2 (by simpa using hout₂),
    List.filter_eq_nil_iff.2 (by simpa using hout₁), List.filter_eq_self.2 (by simpa using hin₂)]
  simp

lemma mem_parametersWith {safety : Safety} {p : String × Json}
    (h : p ∈ o.parametersWith reg e safety) : p.1 ∈ e.argsWith safety := by
  simpa using (List.mem_filter.1 h).2

/-- The parameters of every occurrence of an error with distinct parameters, the safe ones first,
are split by their safety. -/
theorem Occurrence.Arises.splits (h : o.Arises reg e) {safe sensitive : List String}
    (hargs : e.HasArgs safe sensitive) (hnodup : (e.params.map (·.name)).Nodup) :
    o.Splits reg e safe sensitive := by
  have hdisjoint := hargs.disjoint hnodup
  have hsub := h.sublist_names hnodup
  rw [hargs.params] at hsub
  have hsafe : ∀ p ∈ o.parametersWith reg e .safe, p.1 ∈ safe :=
    fun p hp => hargs.argsWith_safe ▸ mem_parametersWith hp
  have hsensitive : ∀ p ∈ o.parametersWith reg e .sensitive, p.1 ∈ sensitive :=
    fun p hp => hargs.argsWith_sensitive ▸ mem_parametersWith hp
  refine ⟨?_, ?_, fun p hp => ⟨hsafe p hp, hdisjoint (hsafe p hp)⟩, fun p hp => ⟨hsensitive p hp,
    fun hmem => hdisjoint hmem (hsensitive p hp)⟩⟩
  · unfold Occurrence.parametersWith
    rw [hargs.argsWith_safe, hargs.argsWith_sensitive]
    exact filter_append_filter_of_sublist hsub hdisjoint
  · intro name hfirst hsecond
    obtain ⟨p, hp, rfl⟩ := List.mem_map.1 hfirst
    obtain ⟨q, hq, hname⟩ := List.mem_map.1 hsecond
    exact hdisjoint (hsafe p hp) (hname ▸ hsensitive q hq)

end Occurrence

end WireContract.Wire

namespace WireContract.Wire

open Json Outcome

/-- A value that does not nest too deep, has its keys once and has numbers that are read back is
read from its own text. -/
lemma parse_text {j : Json} (hdepth : j.depth < nestingLimit) (hdistinct : j.distinct = j)
    (hnumbers : AllNumbers ReadsBack j) : Json.parse j.text = .ok j := by
  obtain ⟨hread, hsettled⟩ := allNumbers_readsBack_iff.1 hnumbers
  have hcomplete : (draftWith Number.reread j).complete nestingLimit = .ok j := by
    rw [Draft.complete_draftWith_iff (fun _ _ => settled_eq) (by decide), hsettled, hdistinct]
    exact ⟨hdepth, hread, rfl⟩
  rw [parse, Draft.ofText_text]
  exact bind_ok_iff.2 ⟨j, hcomplete, rfl⟩

end WireContract.Wire

namespace WireContract.Emit

open Rust Schema Wire

/-- The errors of a contract that was loaded from a text, in the order of the text.  For each error
two lists of names are emitted: those that the text has for it under `safeArgs`, and those under
`unsafeArgs`.  They have no name in common, and the fields of the record of its parameters are named
by the first list and then the second.  So the parameters of an occurrence, whether it was read or
made, are the safe ones and then the sensitive ones, and none of the sensitive ones is among the
safe ones.  This holds of the two sample errors too. -/
theorem error_params_split_by_safety (text : String) (c : Contract)
    (h : Contract.load text = .ok c) :
    (∃ v errors, Json.parse text = .ok v ∧
      (∀ e, .error e ∈ c.registry.declarations ↔ e ∈ errors) ∧
      List.Forall₂ (fun j e => ∃ safe sensitive, Outline.Declares "safeArgs" j safe ∧
          Outline.Declares "unsafeArgs" j sensitive ∧ safe.Disjoint sensitive ∧
          (∀ scope server,
            ListsArgs (errorItems scope server e) e.name.name safe sensitive) ∧
          ∀ o : Occurrence, o.Arises c.registry e → o.Splits c.registry e safe sensitive)
        (v.itemsUnder Outline.documentKeys "errors") errors) ∧
    ∀ e, e = Sample.Canvas.nameError ∨ e = Sample.Canvas.shapeNotFound → ∀ o : Occurrence,
      o.Arises Sample.Canvas.registry e →
        o.Splits Sample.Canvas.registry e (e.argsWith .safe) (e.argsWith .sensitive) := by
  constructor
  · obtain ⟨v, errors, hv, hmem, herrors⟩ := Contract.exists_errors h
    refine ⟨v, errors, hv, hmem, herrors.imp fun j e he => ?_⟩
    obtain ⟨hwell, safe, sensitive, hsafe, hsensitive, hargs⟩ := he
    have hnodup : (e.params.map (·.name)).Nodup := hwell.members.2.distinct.of_map _
    exact ⟨safe, sensitive, hsafe, hsensitive, hargs.disjoint hnodup,
      listsArgs_errorItems hargs hwell, fun o ho => ho.splits hargs hnodup⟩
  · intro e he o ho
    rcases he with rfl | rfl
    · exact ho.splits ⟨rfl, rfl, by decide⟩ (by decide)
    · exact ho.splits ⟨rfl, rfl, by decide⟩ (by decide)

/-- Two errors whose sensitive arguments are not written last: an object with its keys in another
order, and an array.  An argument has the name of an argument of the other error. -/
def twoErrors : Json :=
  let word : Json := .obj [("type", .str "primitive"), ("primitive", .str "STRING")]
  let arg (name : String) : Json := .obj [("type", word), ("fieldName", .str name)]
  .obj [("version", .num (.int 1)),
    ("errors", .arr [
      .obj [("unsafeArgs", .arr [arg "user"]), ("safeArgs", .arr [arg "path", arg "line"]),
        ("code", .str "INTERNAL"), ("namespace", .str "N"),
        ("errorName", .obj [("name", .str "Lost"), ("package", .str "m")])],
      .arr [.arr [.str "Gone", .str "m"], .str "N", .str "NOT_FOUND", .arr [],
        .arr [arg "path"]]])]

/-- The document of the two errors. -/
def twoErrorsDocument : Document :=
  let param (safety : Safety) (name : String) : Param := ⟨name, .primitive .string, safety, none⟩
  ⟨1, [
    .error ⟨⟨"m", "Lost"⟩, "N", .internal,
      [param .safe "path", param .safe "line", param .sensitive "user"], none⟩,
    .error ⟨⟨"m", "Gone"⟩, "N", .notFound, [param .sensitive "path"], none⟩]⟩

lemma parse_twoErrors : Json.parse twoErrors.text = .ok twoErrors := by
  have hnumbers : Json.AllNumbers ReadsBack twoErrors := by
    have hone : ReadsBack (.int 1) := by decide +kernel
    simp [twoErrors, Json.AllNumbers.str, hone]
  exact parse_text (by decide) rfl hnumbers

lemma exists_contract_twoErrors : ∃ c, Contract.load twoErrors.text = .ok c := by
  have hdocument : Document.ofJson twoErrors = .ok twoErrorsDocument := rfl
  have hok : (Contract.ofDocument twoErrorsDocument).isOk = true :=
    Contract.isOk_of_ranked (fun _ => 0) (by decide) rfl rfl (by decide)
  obtain ⟨c, hc⟩ := Outcome.exists_ok_of_isOk hok
  exact ⟨c, Contract.load_ok_iff.2 ⟨twoErrors, twoErrorsDocument, parse_twoErrors, hdocument, hc⟩⟩

/-- The two errors have the arguments that are written for them, and an occurrence of a sample error
without its sensitive parameter is split into the safe one and nothing. -/
theorem error_params_split_by_safety_twoErrors : ∃ c, Contract.load twoErrors.text = .ok c ∧
    (∃ lost gone, (∀ e, .error e ∈ c.registry.declarations ↔ e = lost ∨ e = gone) ∧
      ∀ scope server,
        ListsArgs (errorItems scope server lost) lost.name.name ["path", "line"] ["user"] ∧
        ListsArgs (errorItems scope server gone) gone.name.name [] ["path"]) ∧
    ∀ id, let o : Occurrence := ⟨id, some (.record [.text "s1", .absent])⟩
      o.Splits Sample.Canvas.registry Sample.Canvas.shapeNotFound ["shapeId"] ["owner"] ∧
        o.parameters Sample.Canvas.registry Sample.Canvas.shapeNotFound =
          [("shapeId", .str "s1")] := by
  obtain ⟨c, hc⟩ := exists_contract_twoErrors
  obtain ⟨⟨v, errors, hv, hmem, herrors⟩, hsample⟩ := error_params_split_by_safety _ c hc
  obtain rfl := Except.ok.inj (parse_twoErrors.symm.trans hv)
  refine ⟨c, hc, ?_, fun id => ⟨hsample _ (.inr rfl) _ (.constructed id _), rfl⟩⟩
  obtain ⟨lost, rest, ⟨safe, sensitive, hsafe, hsensitive, -, hlost, -⟩, hrest, rfl⟩ :=
    List.forall₂_cons_left_iff.1 herrors
  obtain ⟨gone, last, ⟨safe', sensitive', hsafe', hsensitive', -, hgone, -⟩, hlast, rfl⟩ :=
    List.forall₂_cons_left_iff.1 hrest
  obtain rfl := List.forall₂_nil_left_iff.1 hlast
  obtain rfl : safe = ["path", "line"] := hsafe.unique (.cons rfl (.cons rfl .nil))
  obtain rfl : sensitive = ["user"] := hsensitive.unique (.cons rfl .nil)
  obtain rfl : safe' = [] := hsafe'.unique .nil
  obtain rfl : sensitive' = ["path"] := hsensitive'.unique (.cons rfl .nil)
  refine ⟨lost, gone, fun e => ?_, fun scope server => ⟨hlost scope server, hgone scope server⟩⟩
  rw [hmem, List.mem_pair]

end WireContract.Emit
