import Mathlib.Tactic.Common
import WireContract.Rust.Item

/-!
# Running generated functions

The functions of generated files are read as programs over values of some type `V`.  What they rely
on but do not define is a `Machine`: literals, constructors, the functions of libraries and methods.

A run may get stuck, may return early, or ends with a value (`Eval`).  It keeps the method calls
that it makes, in order, so that a statement can say which methods of an argument are called and
that no others are.  A match takes the first case whose pattern the value has (`firstArm?`).  A
closure is a partial function on values that the machine may keep; the calls that it makes are not
kept.  Vectors, tests and records whose fields are expressions are given no meaning.
-/

namespace WireContract.Rust

/-! ## Functions -/

/-- A function with its body. -/
structure FunctionDef where
  signature : Signature
  body : Body

namespace FunctionDef

/-- The variables that a call gives values to. -/
def params (g : FunctionDef) : List Ident :=
  (g.signature.receiver.map fun _ => Ident.mk "self").toList ++ g.signature.args.map Prod.fst

/-- The cases that a function ends with, if it is a match. -/
def arms (g : FunctionDef) : List Arm :=
  match g.body.tail with
  | .choose _ arms => arms
  | _ => []

lemma arms_eq {g : FunctionDef} {lets : List (Ident × Expr)} {subject : Expr} {arms : List Arm}
    (h : g.body = ⟨lets, .choose subject arms⟩) : g.arms = arms := by
  rw [FunctionDef.arms, h]

end FunctionDef

/-- The path of a type that is named by one. -/
def Ty.path? : Ty → Option Path
  | .named p _ _ => Option.some p
  | _ => none

/-- The function that a member of an implementation is, if it has a name. -/
def ImplMember.function? (name : String) : ImplMember → Option FunctionDef
  | .function _ _ s b => if s.name.text = name then some ⟨s, b⟩ else none
  | _ => none

/-- The functions of a name that an item implements for the type at a path: those of a trait, or the
type's own. -/
def Item.functions (ofTrait : Option Path) (self : Path) (name : String) : Item → List FunctionDef
  | .impl _ t s members =>
    if t.map Ty.path? = ofTrait.map some ∧ s.path? = some self then
      members.filterMap (ImplMember.function? name)
    else []
  | _ => []

/-! ## Runs -/

/-- What a program relies on. -/
structure Machine (V : Type) where
  /-- The value of a string literal. -/
  text : String → V
  /-- The string that a value is. -/
  text? : V → Option String
  /-- The value of an item that is named by itself. -/
  item? : Path → Option V
  /-- The constructor of a value, with what it was given. -/
  parts? : V → Option (Path × List V)
  /-- A call of a function by its path. -/
  call? : Path → List V → Option V
  /-- A call of a function of a trait, for a type. -/
  traitCall? : Ty → Path → Ident → List V → Option V
  /-- A call of a method. -/
  method? : V → String → List V → Option V
  /-- The value inside a result, or the result to return early. -/
  branch? : V → Option (Except V V)
  /-- The parts of a tuple. -/
  tuple? : V → Option (List V) := fun _ => none
  /-- The field of a value. -/
  field? : V → String → Option V := fun _ _ => none
  /-- The record with the given fields. -/
  record? : Path → List (Ident × V) → Option V := fun _ _ => none
  /-- The value that a closure is. -/
  closure? : (V → Option V) → Option V := fun _ => none

/-- A call of a method. -/
structure Call (V : Type) where
  receiver : V
  method : String
  args : List V

/-- A run: it may return a value early or get stuck, and makes calls of methods. -/
abbrev Eval (V : Type) := ExceptT V (StateT (List (Call V)) Option)

/-- The values of variables, the latest first. -/
abbrev Env (V : Type) := List (Ident × V)

namespace Eval

variable {V α : Type}

/-- A run that gets stuck without a value. -/
def ofOption (x : Option α) : Eval V α := fun calls => x.map fun a => (.ok a, calls)

/-- Keeps a call in mind. -/
def record (c : Call V) : Eval V Unit := fun calls => some (.ok (), calls ++ [c])

/-- The value in a result, or an early return. -/
def ofBranch (x : Option (Except V α)) : Eval V α := fun calls => x.map (·, calls)

lemma bind_of_ok {β : Type} {x : Eval V α} {a : α} {calls calls' : List (Call V)}
    (hx : x calls = some (.ok a, calls')) (next : α → Eval V β) :
    (x >>= next) calls = next a calls' := by
  simp only [bind, ExceptT.bind, ExceptT.mk, StateT.bind, hx, Option.bind_some, ExceptT.bindCont]

lemma bind_of_error {β : Type} {x : Eval V α} {v : V} {calls calls' : List (Call V)}
    (hx : x calls = some (.error v, calls')) (next : α → Eval V β) :
    (x >>= next) calls = some (.error v, calls') := by
  simp only [bind, ExceptT.bind, ExceptT.mk, StateT.bind, hx, Option.bind_some, ExceptT.bindCont]
  rfl

end Eval

section Semantics

variable {V : Type} (m : Machine V)

namespace Pat

mutual

/-- The variables that a pattern gives values to, if a value has its form. -/
def bindings? : Pat → V → Option (Env V)
  | .wild, _ => some []
  | .bind i, v => some [(i, v)]
  | .literal s, v => if m.text? v = some s then some [] else none
  | .path p, v =>
    match m.parts? v with
    | some (q, []) => if p = q then some [] else none
    | _ => none
  | .make p args, v =>
    match m.parts? v with
    | some (q, vs) => if p = q then bindingsOfAll? args vs else none
    | none => none
  | .tuple args, v =>
    match m.tuple? v with
    | some vs => bindingsOfAll? args vs
    | none => none

/-- The variables of patterns for as many values. -/
def bindingsOfAll? : List Pat → List V → Option (Env V)
  | [], [] => some []
  | p :: ps, v :: vs => do
    let first ← bindings? p v
    let rest ← bindingsOfAll? ps vs
    return first ++ rest
  | _, _ => none

end

end Pat

/-- The variables and the body of the first case whose pattern a value has. -/
def firstArm? (arms : List Arm) (v : V) : Option (Env V × Expr) :=
  arms.findSome? fun a => (a.pattern.bindings? m v).map (·, a.body)

namespace Expr

mutual

/-- Runs an expression. -/
def run (env : Env V) : Expr → Eval V V
  | .path p =>
    match p with
    | ⟨false, [i], []⟩ => .ofOption ((env.lookup i).or (m.item? p))
    | p => .ofOption (m.item? p)
  | .literal s => pure (m.text s)
  | .reference _ e => run env e
  | .call f args => do
    let vs ← runAll env args
    match f with
    | .path p => .ofOption (m.call? p vs)
    | .qualified t p i => .ofOption (m.traitCall? t p i vs)
    | _ => .ofOption none
  | .method receiver name args => do
    let v ← run env receiver
    let vs ← runAll env args
    Eval.record ⟨v, name, vs⟩
    Eval.ofOption (m.method? v name vs)
  | .orReturn e => do
    let v ← run env e
    Eval.ofBranch (m.branch? v)
  | .field e name => do
    let v ← run env e
    Eval.ofOption (m.field? v name)
  | .record p fields _ => .ofOption do
    let vs ← fields.mapM (env.lookup ·)
    m.record? p (fields.zip vs)
  | .closure param body => .ofOption <| m.closure? fun v => do
    let bound ← param.bindings? m v
    match ← run (bound ++ env) body [] with
    | (.ok w, _) => some w
    | (.error _, _) => none
  | _ => .ofOption none

/-- Runs expressions from left to right. -/
def runAll (env : Env V) : List Expr → Eval V (List V)
  | [] => pure []
  | e :: es => do
    let v ← run env e
    let vs ← runAll env es
    return v :: vs

end

end Expr

/-- Runs the value of a function. -/
def Tail.run (env : Env V) : Tail → Eval V V
  | .expr e => e.run m env
  | .choose subject arms => do
    let v ← subject.run m env
    let (bound, body) ← Eval.ofOption (firstArm? m arms v)
    body.run m (bound ++ env)
  | .make .. => .ofOption none

/-- Runs variables one after the other, and then a function's value. -/
def runLets (env : Env V) : List (Ident × Expr) → Tail → Eval V V
  | [], tail => tail.run m env
  | (i, e) :: lets, tail => do
    let v ← e.run m env
    runLets ((i, v) :: env) lets tail

/-- Calls a function: its value, returned early or not, and the methods that it called. -/
def FunctionDef.run (g : FunctionDef) (args : List V) : Option (V × List (Call V)) :=
  if args.length = g.params.length then do
    let (result, calls) ← runLets m (g.params.zip args) g.body.lets g.body.tail []
    match result with
    | .ok v => return (v, calls)
    | .error v => return (v, calls)
  else none

/-- A call of a function ends with a value. -/
def FunctionDef.Returns (g : FunctionDef) (args : List V) (v : V) : Prop :=
  ∃ calls, g.run m args = some (v, calls)

/-! ## Calls -/

section Calls

variable {m} {env : Env V} {calls calls' calls'' : List (Call V)} {v w : V} {vs : List V}

lemma Expr.runAll_cons {e : Expr} {es : List Expr} (he : e.run m env calls = some (.ok v, calls'))
    (hes : Expr.runAll m env es calls' = some (.ok vs, calls'')) :
    Expr.runAll m env (e :: es) calls = some (.ok (v :: vs), calls'') := by
  rw [Expr.runAll, Eval.bind_of_ok he, Eval.bind_of_ok hes]
  rfl

lemma Expr.runAll_singleton {e : Expr} (he : e.run m env calls = some (.ok v, calls')) :
    Expr.runAll m env [e] calls = some (.ok [v], calls') :=
  Expr.runAll_cons he rfl

/-- A call of a function gives what the machine has for it. -/
lemma Expr.run_call {p : Path} {args : List Expr}
    (hargs : Expr.runAll m env args calls = some (.ok vs, calls')) (hcall : m.call? p vs = some w) :
    (Expr.call (.path p) args).run m env calls = some (.ok w, calls') := by
  rw [Expr.run, Eval.bind_of_ok hargs]
  simp only [hcall]
  rfl

lemma Expr.run_traitCall {t : Ty} {p : Path} {i : Ident} {args : List Expr}
    (hargs : Expr.runAll m env args calls = some (.ok vs, calls'))
    (hcall : m.traitCall? t p i vs = some w) :
    (Expr.call (.qualified t p i) args).run m env calls = some (.ok w, calls') := by
  rw [Expr.run, Eval.bind_of_ok hargs]
  simp only [hcall]
  rfl

lemma Expr.run_orReturn {e : Expr} {x : Except V V} (he : e.run m env calls = some (.ok v, calls'))
    (hbranch : m.branch? v = some x) : (Expr.orReturn e).run m env calls = some (x, calls') := by
  rw [Expr.run, Eval.bind_of_ok he, hbranch]
  rfl

lemma Expr.run_method {receiver : Expr} {name : String} {args : List Expr}
    (hreceiver : receiver.run m env calls = some (.ok v, calls'))
    (hargs : Expr.runAll m env args calls' = some (.ok vs, calls''))
    (hmethod : m.method? v name vs = some w) :
    (Expr.method receiver name args).run m env calls =
      some (.ok w, calls'' ++ [⟨v, name, vs⟩]) := by
  rw [Expr.run, Eval.bind_of_ok hreceiver, Eval.bind_of_ok hargs]
  simp only [hmethod]
  rfl

end Calls

/-! ## Matches -/

/-- A case is taken if no other case has the form of the value. -/
lemma firstArm?_map_append_of_mem {γ : Type} {arm : γ → Arm} {cases : List γ} {x : γ} {v : V}
    {env : Env V} (hx : x ∈ cases) (henv : (arm x).pattern.bindings? m v = some env)
    (hothers : ∀ y ∈ cases, y ≠ x → (arm y).pattern.bindings? m v = none) (rest : List Arm) :
    firstArm? m (cases.map arm ++ rest) v = some (env, (arm x).body) := by
  induction cases with
  | nil => exact (List.not_mem_nil hx).elim
  | cons y cases ih =>
    rw [List.forall_mem_cons] at hothers
    rw [List.map_cons, List.cons_append, firstArm?, List.findSome?_cons]
    by_cases hy : y = x
    · rw [hy, henv]
      rfl
    · rw [hothers.1 hy]
      exact ih ((List.mem_cons.1 hx).resolve_left (Ne.symm hy)) hothers.2

/-- Cases that do not have the form of the value are passed over. -/
lemma firstArm?_append_of_forall {arms : List Arm} {v : V}
    (h : ∀ a ∈ arms, a.pattern.bindings? m v = none) (rest : List Arm) :
    firstArm? m (arms ++ rest) v = firstArm? m rest v := by
  have hnone : arms.findSome? (fun a => (a.pattern.bindings? m v).map (·, a.body)) = none :=
    List.findSome?_eq_none_iff.2 fun a ha => by rw [h a ha, Option.map_none]
  rw [firstArm?, List.findSome?_append, hnone, Option.none_or, firstArm?]

/-- A run of a match is a run of the case that is taken. -/
lemma Tail.run_choose {env bound : Env V} {subject body : Expr} {arms : List Arm} {v : V}
    {calls calls' : List (Call V)} (hsubject : subject.run m env calls = some (.ok v, calls'))
    (harm : firstArm? m arms v = some (bound, body)) :
    (Tail.choose subject arms).run m env calls = body.run m (bound ++ env) calls' := by
  have hfirst : Eval.ofOption (firstArm? m arms v) calls' = some (.ok (bound, body), calls') := by
    rw [harm]
    rfl
  rw [Tail.run, Eval.bind_of_ok hsubject, Eval.bind_of_ok hfirst]

lemma runLets_cons {env : Env V} {i : Ident} {e : Expr} {lets : List (Ident × Expr)} {tail : Tail}
    {v : V} {calls calls' : List (Call V)} (he : e.run m env calls = some (.ok v, calls')) :
    runLets m env ((i, e) :: lets) tail calls = runLets m ((i, v) :: env) lets tail calls' := by
  rw [runLets, Eval.bind_of_ok he]

section Functions

variable {m} {g : FunctionDef} {args : List V} {params : List Ident} {w : V}
  {calls calls' : List (Call V)}

lemma FunctionDef.run_of_ok (hlength : args.length = g.params.length)
    (hrun : runLets m (g.params.zip args) g.body.lets g.body.tail [] = some (.ok w, calls)) :
    g.run m args = some (w, calls) := by
  rw [FunctionDef.run, if_pos hlength, hrun]
  rfl

/-- A function without variables that is a match: its value is that of the case that is taken. -/
lemma FunctionDef.run_choose {subject body : Expr} {arms : List Arm} {bound : Env V} {v : V}
    (hg : g.params = params ∧ g.body = ⟨[], .choose subject arms⟩)
    (hlength : args.length = params.length)
    (hsubject : subject.run m (params.zip args) [] = some (.ok v, []))
    (harm : firstArm? m arms v = some (bound, body))
    (hbody : body.run m (bound ++ params.zip args) [] = some (.ok w, calls)) :
    g.run m args = some (w, calls) := by
  obtain ⟨rfl, hcode⟩ := hg
  refine FunctionDef.run_of_ok hlength ?_
  rw [hcode, runLets, Tail.run_choose m hsubject harm, hbody]

/-- A function with one variable. -/
lemma FunctionDef.run_let {i : Ident} {e : Expr} {tail : Tail} {v : V}
    (hg : g.params = params ∧ g.body = ⟨[(i, e)], tail⟩) (hlength : args.length = params.length)
    (he : e.run m (params.zip args) [] = some (.ok v, calls))
    (htail : tail.run m ((i, v) :: params.zip args) calls = some (.ok w, calls')) :
    g.run m args = some (w, calls') := by
  obtain ⟨rfl, hcode⟩ := hg
  refine FunctionDef.run_of_ok hlength ?_
  rw [hcode, runLets_cons m he, runLets, htail]

/-- A function whose first variable returns early. -/
lemma FunctionDef.run_let_of_error {i : Ident} {e : Expr} {lets : List (Ident × Expr)} {tail : Tail}
    (hg : g.params = params ∧ g.body = ⟨(i, e) :: lets, tail⟩)
    (hlength : args.length = params.length)
    (he : e.run m (params.zip args) [] = some (.error w, calls)) :
    g.run m args = some (w, calls) := by
  obtain ⟨rfl, hcode⟩ := hg
  rw [FunctionDef.run, if_pos hlength, hcode, runLets, Eval.bind_of_error he]
  rfl

end Functions

end Semantics

end WireContract.Rust
