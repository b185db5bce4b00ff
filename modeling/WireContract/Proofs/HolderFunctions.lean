import WireContract.Proofs.ParameterSafety
import WireContract.Proofs.UnionMatches

/-!
# The functions of an error holder

The holder of an error has functions that give its parameters, all of them or those of one safety,
and that encode and decode it through the envelope.  Here they are looked up in the items of the
error by their names and run on a machine that has JSON, the runtime library and the parameter
record with its two conversions.  Each returns what the occurrence in the holder gives
(`holder_functions_agree`), so that what is known of occurrences holds of the emitted code: the
parameters that it returns are split by their safety (`holder_parameters_split`).

Two functions are also called by others: `select` of the holder, and `parameters` by the library.
The machine answers these calls with what the functions are shown to return.  The constants of the
holder are read off its items.
-/

/-- The members of an item that is an implementation. -/
def WireContract.Rust.Item.members : Rust.Item → List Rust.ImplMember
  | .impl _ _ _ members => members
  | _ => []

namespace WireContract.Emit

open Json Rust Schema Wire

namespace HolderCode

/-! ## The machine -/

/-- What the functions of a holder work on. -/
inductive Data where
  | text (s : String)
  | bool (b : Bool)
  | names (items : List String)
  | code (c : ErrorCode)
  | id (u : Uuid)
  | json (j : Json)
  /-- The entries of an object, or those that are left of them. -/
  | entries (fields : List (String × Json))
  | entry (p : String × Json)
  | predicate (test : String × Json → Bool)
  /-- The function from values to JSON. -/
  | toValue
  | params (v : Value)
  | absent
  | present (x : Data)
  | success (x : Data)
  | failure (f : Fault)
  | envelope (x : Envelope)
  | encoder
  | decoder (r : Reader) (d : Draft)
  | holder (o : Occurrence)

namespace Data

/-- Parameters that may be unknown. -/
def ofParams : Option Value → Data
  | some v => .present (.params v)
  | none => .absent

/-- What reading ends with. -/
def ofRead {α : Type} (f : α → Data) : Except Fault α → Data
  | .ok a => .success (f a)
  | .error fault => .failure fault

def text? : Data → Option String
  | .text s => some s
  | _ => none

def parts? : Data → Option (Path × List Data)
  | .present x => some (.ofWords ["Some"], [x])
  | .success x => some (.ofWords ["Ok"], [x])
  | .json (.obj fields) => some (.ofWords ["serde_json", "Value", "Object"], [.entries fields])
  | _ => none

def branch? : Data → Option (Except Data Data)
  | .success x => some (.ok x)
  | .failure f => some (.error (.failure f))
  | _ => none

def tuple? : Data → Option (List Data)
  | .entry (key, value) => some [.text key, .json value]
  | _ => none

def field? : Data → String → Option Data
  | .holder o, "error_instance_id" => some (.id o.id)
  | .holder o, "parameters" => some (ofParams o.params)
  | _, _ => none

def record? (p : Path) (fields : List (Ident × Data)) : Option Data :=
  match p.segments.map (·.text), fields with
  | ["Self"], [(⟨"error_instance_id"⟩, .id u), (⟨"parameters"⟩, .present (.params v))] =>
    some (.holder ⟨u, some v⟩)
  | ["Self"], [(⟨"error_instance_id"⟩, .id u), (⟨"parameters"⟩, .absent)] =>
    some (.holder ⟨u, none⟩)
  | _, _ => none

/-- A closure is a test of entries. -/
def closure? (f : Data → Option Data) : Option Data :=
  some (.predicate fun p => match f (.entry p) with
    | some (.bool b) => b
    | _ => false)

variable (scope : Scope) (e : ErrorDecl)

/-- The value of a constant. -/
def constant? : Expr → Option Data
  | .literal s => some (.text s)
  | .reference _ (.literals items) => some (.names items)
  | .path p => (ErrorCode.all.find? fun c =>
      p = (scope.lib ["ErrorCode"]).push (Ident.ofName c.variantName)).map .code
  | _ => none

/-- The constants of the holder, and the function that is handed on. -/
def item? (p : Path) : Option Data :=
  if p = .ofWords ["serde_json", "to_value"] then some .toValue
  else (holderConstants scope e).findSome? fun
    | .const _ name _ value => if p = selfItem ⟨name⟩ then constant? scope value else none
    | _ => none

/-- Functions that are not of the runtime library. -/
def plainCall? (p : Path) (args : List Data) : Option Data :=
  match p.segments.map (·.text), args with
  | ["serde", "Serialize", "serialize"], [.envelope x, .encoder] => some (.json x.toJson)
  | ["serde_json", "Map", "new"], [] => some (.entries [])
  | ["serde_json", "from_value"], [.json j] =>
    some (ofRead .params (readValue (readParams scope.contract.registry e) j))
  | ["Ok"], [x] => some (.success x)
  | _, _ => none

def call? (p : Path) (args : List Data) : Option Data :=
  match args with
  | [.holder o] =>
    if p = scope.lib ["ErrorType", "parameters"] then
      some (.entries (o.parameters scope.contract.registry e))
    else if p = (scope.lib ["SerializableError"]).join ["from_error"] then
      some (.envelope (o.envelope scope.contract.registry e))
    else plainCall? scope e p args
  | _ => plainCall? scope e p args

def traitCall? (t : Ty) (p : Path) (i : Ident) : List Data → Option Data
  | [.decoder r d] =>
    if t.path? = some (scope.lib ["SerializableError"]) ∧ p = .ofWords ["serde", "Deserialize"] ∧
        i = ⟨"deserialize"⟩ then
      some (ofRead .envelope (Envelope.read r d))
    else none
  | _ => none

def method? (self : Data) (name : String) (args : List Data) : Option Data :=
  match name, args, self with
  | "select", [.names items], .holder o =>
    some (.entries ((o.parameters scope.contract.registry e).filter fun p => items.contains p.1))
  | "into_iter", [], .entries fields => some (.entries fields)
  | "filter", [.predicate test], .entries fields => some (.entries (fields.filter test))
  | "collect", [], .entries fields => some (.entries fields)
  | "contains", [.text s], .names items => some (.bool (items.contains s))
  | "as_str", [], .text s => some (.text s)
  | "as_ref", [], x => some x
  | "map", [.toValue], .present (.params v) =>
    some (.present (.success (.json (paramsJson scope.contract.registry e v).distinct)))
  | "map", [.toValue], .absent => some .absent
  | "error_instance_id", [], .envelope x => some (.id x.id)
  | "into_parameters", [], .envelope x => some (.json x.parameters)
  | "ok", [], .success x => some (.present x)
  | "ok", [], .failure _ => some .absent
  | _, _, _ => none

end Data

/-- The machine for the holder of an error. -/
def machine (scope : Scope) (e : ErrorDecl) : Machine Data where
  text := .text
  text? := Data.text?
  item? := Data.item? scope e
  parts? := Data.parts?
  call? := Data.call? scope e
  traitCall? := Data.traitCall? scope
  method? := Data.method? scope e
  branch? := Data.branch?
  tuple? := Data.tuple?
  field? := Data.field?
  record? := Data.record?
  closure? := Data.closure?

/-! ## The functions -/

/-- Functions of a holder, by name, return what the occurrence in it gives: its own, those of the
common interface, and those that encode and decode it. -/
structure Agrees (reg : Registry) (e : ErrorDecl)
    (own interface encoder decoder : String → List Data → Data → Prop) : Prop where
  params (o : Occurrence) : own "params" [.holder o] (.ofParams o.params)
  select (o : Occurrence) (items : List String) : own "select" [.holder o, .names items]
    (.entries ((o.parameters reg e).filter fun p => items.contains p.1))
  safe (o : Occurrence) : own "safe_params" [.holder o] (.entries (o.parametersWith reg e .safe))
  sensitive (o : Occurrence) :
    own "unsafe_params" [.holder o] (.entries (o.parametersWith reg e .sensitive))
  code (o : Occurrence) : interface "code" [.holder o] (.code (o.envelope reg e).code)
  name (o : Occurrence) : interface "name" [.holder o] (.text (o.envelope reg e).name)
  id (o : Occurrence) : interface "instance_id" [.holder o] (.id (o.envelope reg e).id)
  parameters (o : Occurrence) :
    interface "parameters" [.holder o] (.entries (o.parameters reg e))
  serialize (o : Occurrence) :
    encoder "serialize" [.holder o, .encoder] (.json (o.envelope reg e).toJson)
  deserialize (r : Reader) (d : Draft) :
    decoder "deserialize" [.decoder r d] (.ofRead .holder (Occurrence.read reg e r d))

section Functions

variable (scope : Scope) (server : Bool) (e : ErrorDecl)

/-- The functions of a name for the holder, of a trait or its own. -/
def functions (ofTrait : Option Path) (name : String) : List FunctionDef :=
  (errorItems scope server e).flatMap
    (Item.functions ofTrait (.ofIdent (.ofName e.name.name)) name)

/-- There is one function of the name for the holder, and a call of it ends with the value. -/
def Returns (ofTrait : Option Path) (name : String) (args : List Data) (v : Data) : Prop :=
  ∃ g, functions scope server e ofTrait name = [g] ∧ g.Returns (machine scope e) args v

variable {name : String}

lemma functions_own (hname : "status_code" ≠ name) : functions scope server e none name =
    (holderFunctions scope e).filterMap (ImplMember.function? name) := by
  have hconstants : (holderConstants scope e).filterMap (ImplMember.function? name) = [] := rfl
  cases server <;>
    simp [functions, errorItems, parametersItem, holderInterface, holderCodec, serverItems,
      displayImpl, serializeImpl, deserializeImpl, getter, signature, Item.functions, ownType,
      Ty.ofPath, Ty.path?, ImplMember.function?, hconstants, hname]

/-- The path of the interface is none that ends in another word. -/
lemma ne_interface {q : Path} (hq : q.segments.getLast? ≠ some ⟨"ErrorType"⟩) :
    q ≠ scope.lib ["ErrorType"] ∧ scope.lib ["ErrorType"] ≠ q :=
  have h := UnionCode.ne_join scope.runtime (by simp) hq
  ⟨h, h.symm⟩

lemma functions_interface : functions scope server e (some (scope.lib ["ErrorType"])) name =
    (holderInterface scope (ownType e.name.name)).members.filterMap
      (ImplMember.function? name) := by
  cases server <;>
    simp [functions, errorItems, parametersItem, holderInterface, holderCodec, serverItems,
      displayImpl, serializeImpl, deserializeImpl, Item.functions, Item.members, ownType,
      Scope.libType, Ty.ofPath, Ty.path?, ne_interface, Path.std, Path.ofWords]

lemma functions_codec {t : String}
    (ht : (t, name) ∈ [("Serialize", "serialize"), ("Deserialize", "deserialize")]) :
    functions scope server e (some (.ofWords ["serde", t])) name =
      ((holderCodec scope (ownType e.name.name)).flatMap Item.members).filterMap
        (ImplMember.function? name) := by
  simp only [List.mem_cons, Prod.mk.injEq, List.not_mem_nil, or_false] at ht
  rcases ht with ⟨rfl, rfl⟩ | ⟨rfl, rfl⟩ <;> cases server <;>
    simp [functions, errorItems, parametersItem, holderInterface, holderCodec, serverItems,
      displayImpl, serializeImpl, deserializeImpl, Item.functions, Item.members, ownType,
      Scope.libType, Ty.ofPath, Ty.path?, ImplMember.function?, ne_interface, Path.std,
      Path.ofWords]

/-! ## What they rely on -/

lemma call?_fromError (o : Occurrence) :
    Data.call? scope e ((scope.lib ["SerializableError"]).join ["from_error"]) [.holder o] =
      some (.envelope (o.envelope scope.contract.registry e)) := by
  have hne : (scope.lib ["SerializableError"]).join ["from_error"] ≠
      scope.lib ["ErrorType", "parameters"] :=
    UnionCode.ne_join _ (by simp) (by simp [Path.join])
  rw [Data.call?, if_neg hne, if_pos rfl]

lemma call?_ok (o : Occurrence) :
    Data.call? scope e (.ofWords ["Ok"]) [.holder o] = some (.success (.holder o)) := by
  have hparameters : Path.ofWords ["Ok"] ≠ scope.lib ["ErrorType", "parameters"] :=
    UnionCode.ne_join _ (by simp) (by decide)
  have henvelope : Path.ofWords ["Ok"] ≠ (scope.lib ["SerializableError"]).join ["from_error"] :=
    UnionCode.ne_join _ (by simp) (by decide)
  rw [Data.call?, if_neg hparameters, if_neg henvelope]
  rfl

lemma item?_code : Data.item? scope e (selfItem ⟨"CODE"⟩) = some (.code e.code) := by
  have hconstant : Data.constant? scope
      (.path ((scope.lib ["ErrorCode"]).push (Ident.ofName e.code.variantName))) =
      some (.code e.code) := by
    cases e.code <;> simp +decide [Data.constant?, ErrorCode.all, Path.push]
  rw [Data.item?, if_neg (by decide)]
  simp [holderConstants, hconstant]

lemma method?_ok (x : Except Fault Value) :
    Data.method? scope e (.ofRead .params x) "ok" [] = some (.ofParams x.toOption) := by
  cases x <;> rfl

lemma method?_map {v : Value} {j : Json}
    (h : (paramsJson scope.contract.registry e v).distinct = j) :
    Data.method? scope e (.present (.params v)) "map" [.toValue] =
      some (.present (.success (.json j))) :=
  h ▸ rfl

lemma record?_ofParams (u : Uuid) (params : Option Value) :
    Data.record? (.ofWords ["Self"])
      [(⟨"error_instance_id"⟩, .id u), (⟨"parameters"⟩, .ofParams params)] =
      some (.holder ⟨u, params⟩) := by
  cases params <;> rfl

/-- The functions of the holder of every error agree with its occurrences. -/
theorem holder_functions_agree :
    Agrees scope.contract.registry e (Returns scope server e none)
      (Returns scope server e (some (scope.lib ["ErrorType"])))
      (Returns scope server e (some (.ofWords ["serde", "Serialize"])))
      (Returns scope server e (some (.ofWords ["serde", "Deserialize"]))) where
  params o := ⟨_, (functions_own scope server e (by decide)).trans rfl, _,
    FunctionDef.run_of_ok rfl (Expr.run_method rfl rfl rfl)⟩
  select o items := ⟨_, (functions_own scope server e (by decide)).trans rfl, _,
    FunctionDef.run_of_ok rfl (Expr.run_method (Expr.run_method (Expr.run_method
      (Expr.run_call rfl (if_pos rfl)) rfl rfl) rfl rfl) rfl rfl)⟩
  safe o := ⟨_, (functions_own scope server e (by decide)).trans rfl, _,
    FunctionDef.run_of_ok rfl (Expr.run_method rfl rfl rfl)⟩
  sensitive o := ⟨_, (functions_own scope server e (by decide)).trans rfl, _,
    FunctionDef.run_of_ok rfl (Expr.run_method rfl rfl rfl)⟩
  code o := ⟨_, (functions_interface scope server e).trans rfl, [],
    FunctionDef.run_of_ok rfl (congrArg (Eval.ofOption · []) (item?_code scope e))⟩
  name o := ⟨_, (functions_interface scope server e).trans rfl, _, FunctionDef.run_of_ok rfl rfl⟩
  id o := ⟨_, (functions_interface scope server e).trans rfl, _, FunctionDef.run_of_ok rfl rfl⟩
  parameters o := by
    refine ⟨_, (functions_interface scope server e).trans rfl, ?_⟩
    obtain ⟨u, - | v⟩ := o
    · exact ⟨_, FunctionDef.run_of_ok rfl rfl⟩
    · rw [Occurrence.parameters, Option.map_some]
      -- The first case takes the entries of an object, and the second any other JSON.
      cases hj : (paramsJson scope.contract.registry e v).distinct <;>
        exact ⟨_, FunctionDef.run_of_ok rfl ((Tail.run_choose _ (Expr.run_method
          (Expr.run_method rfl rfl rfl) rfl (method?_map scope e hj)) rfl).trans rfl)⟩
  serialize o := ⟨_, (functions_codec scope server e (by simp)).trans rfl, _,
    FunctionDef.run_of_ok rfl (Expr.run_call
      (Expr.runAll_cons (Expr.run_call rfl (call?_fromError scope e o)) rfl) rfl)⟩
  deserialize r d := by
    refine ⟨_, (functions_codec scope server e (by simp)).trans rfl, ?_⟩
    have hread : Data.traitCall? scope (.ofPath (scope.lib ["SerializableError"]))
        (.ofWords ["serde", "Deserialize"]) ⟨"deserialize"⟩ [.decoder r d] =
        some (.ofRead .envelope (Envelope.read r d)) := if_pos ⟨rfl, rfl, rfl⟩
    -- A fault in the envelope is returned early; parameters that do not fit become absent.
    rw [Occurrence.read]
    cases hx : Envelope.read r d with
    | error f =>
      rw [hx] at hread
      change FunctionDef.Returns _ _ _ (Data.failure f)
      exact ⟨_, FunctionDef.run_let_of_error ⟨rfl, rfl⟩ rfl
        (Expr.run_orReturn (Expr.run_traitCall rfl hread) rfl)⟩
    | ok x =>
      rw [hx] at hread
      change FunctionDef.Returns _ _ _ (Data.success (.holder (.ofEnvelope _ e x)))
      have hself := record?_ofParams x.id
        (readValue (readParams scope.contract.registry e) x.parameters).toOption
      exact ⟨_, FunctionDef.run_of_ok rfl <|
        (runLets_cons _ (Expr.run_orReturn (Expr.run_traitCall rfl hread) rfl)).trans <|
        (runLets_cons _ (Expr.run_method rfl rfl rfl)).trans <|
        (runLets_cons _ (Expr.run_method (Expr.run_call
          (Expr.runAll_singleton (Expr.run_method rfl rfl rfl)) rfl) rfl
          (method?_ok scope e _))).trans <|
        Expr.run_call (Expr.runAll_singleton (congrArg (Eval.ofOption · _) hself))
          (call?_ok scope e _)⟩

/-- Of an occurrence that comes about, one function returns safe parameters and another sensitive
ones, and together they are all that the interface returns. -/
theorem holder_parameters_split {o : Occurrence} (h : o.Arises scope.contract.registry e)
    {safe sensitive : List String} (hargs : e.HasArgs safe sensitive)
    (hnodup : (e.params.map (·.name)).Nodup) :
    ∃ shown hidden, Returns scope server e none "safe_params" [.holder o] (.entries shown) ∧
      Returns scope server e none "unsafe_params" [.holder o] (.entries hidden) ∧
      Returns scope server e (some (scope.lib ["ErrorType"])) "parameters" [.holder o]
        (.entries (shown ++ hidden)) ∧
      (∀ p ∈ shown, p.1 ∈ safe ∧ p.1 ∉ sensitive) ∧ ∀ p ∈ hidden, p.1 ∈ sensitive ∧ p.1 ∉ safe := by
  have hcode := holder_functions_agree scope server e
  have hsplit := h.splits hargs hnodup
  refine ⟨_, _, hcode.safe o, hcode.sensitive o, ?_, hsplit.safeNames, hsplit.sensitiveNames⟩
  rw [hsplit.parts]
  exact hcode.parameters o

end Functions

end HolderCode

end WireContract.Emit
