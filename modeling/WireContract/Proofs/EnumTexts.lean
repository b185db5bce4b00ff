import WireContract.Proofs.NameCases
import WireContract.Proofs.UnionMatches

/-!
# Texts of an enumeration

Four functions of an enumeration connect its values with texts: one lists the known values, one
decodes a text, one gives the text of a value and one tells whether the value is known.  Here they
are looked up in the items of the enumeration by their names (`enumCode?`) and run on a machine that
has the upper case of texts and the runtime library.

`Spells` says which text a value has, without the functions.  Decoding gives the value that has the
upper case of a text for its own, and the text of a value is what decoding would take the upper case
of.  The two undo each other because the text of a value is its own upper case (`Spells.upper_eq`):
of a declared value by the rule for its spelling, of any other because it was taken in upper case.
-/

namespace WireContract.Text

/-- The texts differ in the case of ASCII letters at most. -/
def SameLetters (s t : String) : Prop :=
  s.toList.map asciiLower = t.toList.map asciiLower

instance (s t : String) : Decidable (SameLetters s t) :=
  inferInstanceAs (Decidable (s.toList.map asciiLower = t.toList.map asciiLower))

/-- Upper case does not see the case of an ASCII letter. -/
lemma upperChars_eq_of_asciiLower_eq {c d : Char} (h : asciiLower c = asciiLower d) :
    upperChars c = upperChars d := by
  have hnat : (asciiLower c).toNat = (asciiLower d).toNat := congrArg Char.toNat h
  rw [toNat_asciiLower, toNat_asciiLower] at hnat
  by_cases hc : c.toNat < 128
  · have hd : d.toNat < 128 := by
      split at hnat <;> split at hnat <;> omega
    have hsame : asciiUpper c = asciiUpper d := by
      apply Char.toNat_inj.1
      rw [toNat_asciiUpper, toNat_asciiUpper]
      split_ifs at hnat ⊢ <;> omega
    unfold upperChars
    rw [if_pos hc, if_pos hd, hsame]
  · have hsame : c = d := by
      apply Char.toNat_inj.1
      split_ifs at hnat <;> omega
    rw [hsame]

lemma SameLetters.upper_eq {s t : String} (h : SameLetters s t) : upper s = upper t := by
  have hchars : ∀ cs ds : List Char, cs.map asciiLower = ds.map asciiLower →
      cs.flatMap upperChars = ds.flatMap upperChars := by
    intro cs
    induction cs with
    | nil =>
      intro ds hds
      rw [List.map_eq_nil_iff.1 hds.symm]
    | cons c cs ih =>
      intro ds hds
      obtain ⟨d, ds, rfl, hd, hrest⟩ := List.map_eq_cons_iff.1 hds.symm
      rw [List.flatMap_cons, List.flatMap_cons, upperChars_eq_of_asciiLower_eq hd.symm,
        ih ds hrest.symm]
  exact congrArg String.ofList (hchars _ _ h)

end WireContract.Text

namespace WireContract.Rust

section Forms

variable {V : Type} (m : Machine V)

/-- The values that a function without arguments lists, if it is a vector of items. -/
def FunctionDef.listed? (g : FunctionDef) : Option (List V) :=
  match g.params, g.body with
  | [], ⟨[], .expr (.vec items)⟩ => items.mapM m.item?
  | _, _ => none

/-- What a function says of its one argument, if it is a test for a pattern. -/
def FunctionDef.tested? (g : FunctionDef) (v : V) : Option Bool :=
  match g.params, g.body with
  | [name], ⟨[], .expr (.test subject p)⟩ =>
    if name = subject then some (p.bindings? m v).isSome else none
  | _, _ => none

variable {m}

/-- A call has one value. -/
lemma FunctionDef.Returns.unique {g : FunctionDef} {args : List V} {v w : V}
    (hv : g.Returns m args v) (hw : g.Returns m args w) : v = w := by
  obtain ⟨calls, hv⟩ := hv
  obtain ⟨calls', hw⟩ := hw
  exact congrArg Prod.fst (Option.some.inj (hv.symm.trans hw))

end Forms

end WireContract.Rust

namespace WireContract.Emit

open Rust Schema

/-! ## The functions of an enumeration -/

/-- The variants of an enumeration, and the functions that connect them with texts. -/
structure EnumCode where
  variants : List Ident
  values : FunctionDef
  fromWire : FunctionDef
  asStr : FunctionDef
  isUnknown : FunctionDef

/-- The code in the items of an enumeration, if the type and each function is there once. -/
def enumCode? (scope : Scope) (e : Enum) : Option EnumCode :=
  let functions (name : String) : List FunctionDef :=
    (enumItems scope e).flatMap (Item.functions none (.ofIdent (.ofName e.name.name)) name)
  match (enumItems scope e).flatMap (variantsOf (.ofName e.name.name)), functions "values",
    functions "from_wire", functions "as_str", functions "is_unknown" with
  | [variants], [values], [fromWire], [asStr], [isUnknown] =>
    some ⟨variants, values, fromWire, asStr, isUnknown⟩
  | _, _, _, _, _ => none

namespace EnumCode

/-- What the functions of an enumeration work on. -/
inductive Data where
  | text (s : String)
  /-- The text that is kept of a value that is not declared. -/
  | kept (s : String)
  /-- A variant without content. -/
  | bare (name : Ident)
  | holding (name : Ident) (inside : Data)
deriving DecidableEq, Repr

namespace Data

def text? : Data → Option String
  | .text s => some s
  | _ => none

def parts? : Data → Option (Path × List Data)
  | .bare name => some (selfItem name, [])
  | .holding name inside => some (selfItem name, [inside])
  | _ => none

/-- A text is kept as it is. -/
def fromUnmatched : List Data → Option Data
  | [.text s] => some (.kept s)
  | _ => none

/-- Constructors of variants. -/
def construct : Path → List Data → Option Data
  | ⟨false, [⟨"Self"⟩, name], []⟩, [x] => some (.holding name x)
  | _, _ => none

def call? (runtime p : Path) (args : List Data) : Option Data :=
  if p = runtime.join ["enums", "UnknownValue", "from_unmatched"] then fromUnmatched args
  else construct p args

def method? : Data → String → List Data → Option Data
  | .text s, "to_uppercase", [] => some (.text (Text.upper s))
  | .text s, "as_str", [] => some (.text s)
  | .kept s, "as_str", [] => some (.text s)
  | _, _, _ => none

end Data

/-- The machine with the runtime library at a path. -/
def machine (runtime : Path) : Machine Data where
  text := .text
  text? := Data.text?
  item? p := p.ownVariant?.map .bare
  parts? := Data.parts?
  call? := Data.call? runtime
  traitCall? _ _ _ _ := none
  method? := Data.method?
  branch? _ := none

/-! ## The code as it is emitted -/

/-- The functions are those of the declared values with their variants. -/
structure Matches (code : EnumCode) (scope : Scope) (e : Enum) : Prop where
  variants : code.variants = (wireVariants e).map Prod.snd ++ [⟨Ident.unknownVariant⟩]
  values : code.values.params = [] ∧
    code.values.body = .ofExpr (.vec ((wireVariants e).map fun p => selfItem p.2))
  fromWire : code.fromWire.params = [⟨"value"⟩] ∧
    code.fromWire.body = ⟨[(⟨"value"⟩, .method (.var "value") "to_uppercase" [])],
      .choose (.method (.var "value") "as_str" []) (readArms scope e)⟩
  asStr : code.asStr.params = [⟨"self"⟩] ∧
    code.asStr.body = ⟨[], .choose (.var "self") (writeArms e)⟩
  isUnknown : code.isUnknown.params = [⟨"self"⟩] ∧
    code.isUnknown.body = .ofExpr (.test ⟨"self"⟩ (.make unknownItem [.wild]))

lemma variantsOf_enumItems (scope : Scope) (e : Enum) :
    (enumItems scope e).flatMap (variantsOf (.ofName e.name.name)) =
      [(wireVariants e).map Prod.snd ++ [⟨Ident.unknownVariant⟩]] := by
  simp [enumItems, variantsOf, serializeImpl, deserializeImpl, displayImpl, enumVariants,
    wireVariants]

lemma functions_enumItems (scope : Scope) (e : Enum) :
    let read name := (enumItems scope e).flatMap
      (Item.functions none (.ofIdent (.ofName e.name.name)) name)
    (∃ g, read "values" = [g] ∧ g.params = [] ∧
      g.body = .ofExpr (.vec ((wireVariants e).map fun p => selfItem p.2))) ∧
    (∃ g, read "from_wire" = [g] ∧ g.params = [⟨"value"⟩] ∧
      g.body = ⟨[(⟨"value"⟩, .method (.var "value") "to_uppercase" [])],
        .choose (.method (.var "value") "as_str" []) (readArms scope e)⟩) ∧
    (∃ g, read "as_str" = [g] ∧ g.params = [⟨"self"⟩] ∧
      g.body = ⟨[], .choose (.var "self") (writeArms e)⟩) ∧
    ∃ g, read "is_unknown" = [g] ∧ g.params = [⟨"self"⟩] ∧
      g.body = .ofExpr (.test ⟨"self"⟩ (.make unknownItem [.wild])) := by
  refine ⟨?_, ?_, ?_, ?_⟩ <;>
    simp [enumItems, Item.functions, serializeImpl, deserializeImpl, displayImpl, ownType,
      Ty.ofPath, Ty.path?, ImplMember.function?, getter, signature, FunctionDef.params]

/-- The items of an enumeration have its code. -/
lemma exists_enumCode (scope : Scope) (e : Enum) :
    ∃ code, enumCode? scope e = some code ∧ code.Matches scope e := by
  obtain ⟨⟨values, hvalues, hvalues'⟩, ⟨fromWire, hfrom, hfrom'⟩, ⟨asStr, has, has'⟩,
    isUnknown, hunknown, hunknown'⟩ := functions_enumItems scope e
  refine ⟨⟨_, values, fromWire, asStr, isUnknown⟩, ?_, ⟨rfl, hvalues', hfrom', has', hunknown'⟩⟩
  simp only [enumCode?, variantsOf_enumItems, hvalues, hfrom, has, hunknown]

/-! ## The case that is taken -/

section Cases

variable (runtime : Path) {e : Enum}

lemma values_wireVariants (e : Enum) :
    (wireVariants e).map Prod.fst = e.values.map (·.value) := by
  unfold wireVariants
  rw [List.map_map]
  rfl

lemma readArms_eq (scope : Scope) (e : Enum) : readArms scope e =
    (wireVariants e).map (fun p => ⟨.literal p.1, .path (selfItem p.2)⟩) ++
      [⟨.wild, .call (.path unknownItem)
        [.call (.path (scope.lib ["enums", "UnknownValue", "from_unmatched"])) [.var "value"]]⟩] :=
  rfl

lemma writeArms_eq (e : Enum) : writeArms e =
    (wireVariants e).map (fun p => ⟨.path (selfItem p.2), .literal p.1⟩) ++
      [⟨.make unknownItem [.bind ⟨"value"⟩], .method (.var "value") "as_str" []⟩] :=
  rfl

/-- A declared text is taken by the case of its value. -/
lemma firstArm?_declared (scope : Scope) (hnodup : ((wireVariants e).map Prod.fst).Nodup)
    {p : String × Ident} (hp : p ∈ wireVariants e) :
    firstArm? (machine runtime) (readArms scope e) (.text p.1) =
      some ([], .path (selfItem p.2)) := by
  rw [readArms_eq]
  refine firstArm?_map_append_of_mem _ hp ?_ (fun q hq hne => ?_) _
  · unfold Pat.bindings?
    exact if_pos rfl
  · unfold Pat.bindings?
    apply if_neg
    intro heq
    exact hne (List.inj_on_of_nodup_map hnodup hq hp (Option.some.inj heq).symm)

/-- Any other text is taken by the last case. -/
lemma firstArm?_undeclared (scope : Scope) {s : String} (hs : s ∉ e.values.map (·.value)) :
    firstArm? (machine runtime) (readArms scope e) (.text s) =
      some ([], .call (.path unknownItem)
        [.call (.path (scope.lib ["enums", "UnknownValue", "from_unmatched"]))
          [.var "value"]]) := by
  rw [readArms_eq, firstArm?_append_of_forall]
  · rfl
  · intro a ha
    obtain ⟨p, hp, rfl⟩ := List.mem_map.1 ha
    unfold Pat.bindings?
    apply if_neg
    intro heq
    apply hs
    rw [← values_wireVariants, Option.some.inj heq]
    exact List.mem_map_of_mem hp

lemma bindings?_path_bare (name name' : Ident) :
    (Pat.path (selfItem name)).bindings? (machine runtime) (.bare name') =
      if name = name' then some [] else none := by
  have hpath : selfItem name = selfItem name' ↔ name = name' := by simp [selfItem]
  have hparts : (machine runtime).parts? (.bare name') = some (selfItem name', []) := rfl
  unfold Pat.bindings?
  rw [hparts]
  simp only [hpath]

/-- A variant is taken by the case of its value. -/
lemma firstArm?_bare (hnodup : ((wireVariants e).map Prod.snd).Nodup)
    {p : String × Ident} (hp : p ∈ wireVariants e) :
    firstArm? (machine runtime) (writeArms e) (.bare p.2) = some ([], .literal p.1) := by
  rw [writeArms_eq]
  refine firstArm?_map_append_of_mem _ hp ?_ (fun q hq hne => ?_) _
  · rw [bindings?_path_bare, if_pos rfl]
  · rw [bindings?_path_bare, if_neg]
    intro heq
    exact hne (List.inj_on_of_nodup_map hnodup hq hp heq)

/-- The variant that keeps a text is taken by the last case, since it is no variant without
content. -/
lemma firstArm?_kept (s : String) :
    firstArm? (machine runtime) (writeArms e) (.holding ⟨Ident.unknownVariant⟩ (.kept s)) =
      some ([(⟨"value"⟩, .kept s)], .method (.var "value") "as_str" []) := by
  rw [writeArms_eq, firstArm?_append_of_forall]
  · rfl
  · intro a ha
    obtain ⟨p, hp, rfl⟩ := List.mem_map.1 ha
    rfl

end Cases

/-! ## Running the functions -/

section Runs

variable {code : EnumCode} {scope : Scope} {e : Enum} (h : code.Matches scope e)

include h

/-- Decoding takes the upper case of a text and then the case that it has. -/
lemma returns_of_firstArm? {s : String} {body : Expr} {x : Data}
    (hcase : firstArm? (machine scope.runtime) (readArms scope e) (.text (Text.upper s)) =
      some ([], body))
    (hbody : ∀ calls, body.run (machine scope.runtime)
      [(⟨"value"⟩, .text (Text.upper s)), (⟨"value"⟩, .text s)] calls = some (.ok x, calls)) :
    code.fromWire.Returns (machine scope.runtime) [.text s] x :=
  ⟨_, FunctionDef.run_let h.fromWire rfl (Expr.run_method rfl rfl rfl)
    ((Tail.run_choose _ (Expr.run_method rfl rfl rfl) hcase).trans (hbody _))⟩

/-- A text whose upper case is declared decodes to the variant of the value. -/
lemma fromWire_returns_bare (hnodup : ((wireVariants e).map Prod.fst).Nodup) {p : String × Ident}
    (hp : p ∈ wireVariants e) {s : String} (hs : Text.upper s = p.1) :
    code.fromWire.Returns (machine scope.runtime) [.text s] (.bare p.2) := by
  have hcase : firstArm? (machine scope.runtime) (readArms scope e) (.text (Text.upper s)) =
      some ([], .path (selfItem p.2)) := by
    rw [hs]
    exact firstArm?_declared _ scope hnodup hp
  apply returns_of_firstArm? h hcase
  intro calls
  rfl

/-- Any other text decodes to the variant that keeps its upper case. -/
lemma fromWire_returns_kept {s : String} (hs : Text.upper s ∉ e.values.map (·.value)) :
    code.fromWire.Returns (machine scope.runtime) [.text s]
      (.holding ⟨Ident.unknownVariant⟩ (.kept (Text.upper s))) := by
  apply returns_of_firstArm? h (firstArm?_undeclared _ scope hs)
  intro calls
  -- from the inside out: the text is kept, and what is kept is put in its variant
  have hkept : (machine scope.runtime).call?
      (scope.lib ["enums", "UnknownValue", "from_unmatched"]) [.text (Text.upper s)] =
        some (.kept (Text.upper s)) := if_pos rfl
  have hvariant : (machine scope.runtime).call? unknownItem [.kept (Text.upper s)] =
      some (.holding ⟨Ident.unknownVariant⟩ (.kept (Text.upper s))) :=
    if_neg (UnionCode.ne_join _ (by simp) (by decide))
  exact Expr.run_call
    (Expr.runAll_singleton (Expr.run_call (Expr.runAll_singleton rfl) hkept)) hvariant

lemma asStr_returns_bare (hnodup : ((wireVariants e).map Prod.snd).Nodup) {p : String × Ident}
    (hp : p ∈ wireVariants e) :
    code.asStr.Returns (machine scope.runtime) [.bare p.2] (.text p.1) :=
  ⟨_, FunctionDef.run_choose h.asStr rfl rfl (firstArm?_bare _ hnodup hp) rfl⟩

lemma asStr_returns_kept (s : String) :
    code.asStr.Returns (machine scope.runtime) [.holding ⟨Ident.unknownVariant⟩ (.kept s)]
      (.text s) :=
  ⟨_, FunctionDef.run_choose h.asStr rfl rfl (firstArm?_kept _ s) rfl⟩

lemma tested?_isUnknown (x : Data) : code.isUnknown.tested? (machine scope.runtime) x =
    some ((Pat.make unknownItem [.wild]).bindings? (machine scope.runtime) x).isSome := by
  unfold FunctionDef.tested?
  rw [h.isUnknown.1, h.isUnknown.2]
  exact if_pos rfl

lemma isUnknown_bare (name : Ident) :
    code.isUnknown.tested? (machine scope.runtime) (.bare name) = some false := by
  have hparts : (machine scope.runtime).parts? (.bare name) = some (selfItem name, []) := rfl
  have hnone : (Pat.make unknownItem [.wild]).bindings? (machine scope.runtime) (.bare name) =
      none := by
    unfold Pat.bindings?
    rw [hparts]
    exact ite_self _
  rw [tested?_isUnknown h, hnone]
  rfl

lemma isUnknown_kept (s : String) : code.isUnknown.tested? (machine scope.runtime)
    (.holding ⟨Ident.unknownVariant⟩ (.kept s)) = some true := by
  rw [tested?_isUnknown h]
  rfl

/-- The values listed are the variants of the declared values, in order. -/
lemma listed?_values : code.values.listed? (machine scope.runtime) =
    some (((wireVariants e).map Prod.snd).map .bare) := by
  unfold FunctionDef.listed?
  rw [h.values.1, h.values.2]
  have hitem : ∀ p : String × Ident,
      (machine scope.runtime).item? (selfItem p.2) = some (.bare p.2) := fun p => rfl
  induction wireVariants e with
  | nil => rfl
  | cons p ps ih => simp_all [Body.ofExpr]

end Runs

end EnumCode

/-! ## Values and their texts -/

section Declared

variable {e : Enum} (he : (Declaration.enum e).WellFormed)

include he

lemma nodup_wireVariants_fst : ((wireVariants e).map Prod.fst).Nodup := by
  rw [EnumCode.values_wireVariants]
  exact he.members.2.1.distinct.of_map _

lemma nodup_wireVariants_snd :
    ((wireVariants e).map Prod.snd ++ [Ident.mk Ident.unknownVariant]).Nodup := by
  have hvariants : (wireVariants e).map Prod.snd =
      ((e.values.map (·.value)).map Text.variant).map Ident.variant := by
    unfold wireVariants
    rw [List.map_map, List.map_map, List.map_map]
    rfl
  rw [hvariants]
  refine Ident.nodup_variants (fun s hs => ?_) he.members.2.1.distinct
  obtain ⟨value, hvalue, rfl⟩ := List.mem_map.1 hs
  obtain ⟨v, hv, rfl⟩ := List.mem_map.1 hvalue
  exact Text.alphanumeric_variant (he.members.2.2 v hv)

end Declared

namespace EnumCode

/-- The values of an enumeration with their texts: a variant with the declared value, and a text
that is kept with itself. -/
inductive Spells (e : Enum) : Data → String → Prop where
  | known {p : String × Ident} (hp : p ∈ wireVariants e) : Spells e (.bare p.2) p.1
  | unknown {t : String} (hupper : Text.upper t = t) (ht : t ∉ e.values.map (·.value)) :
    Spells e (.holding ⟨Ident.unknownVariant⟩ (.kept t)) t

/-- Every text in upper case is the text of a value. -/
lemma exists_spells (e : Enum) (s : String) : ∃ x, Spells e x (Text.upper s) := by
  by_cases hs : Text.upper s ∈ e.values.map (·.value)
  · rw [← values_wireVariants] at hs
    obtain ⟨p, hp, hps⟩ := List.mem_map.1 hs
    rw [← hps]
    exact ⟨_, .known hp⟩
  · exact ⟨_, .unknown (Text.upper_upper s) hs⟩

namespace Spells

variable {code : EnumCode} {scope : Scope} {e : Enum} {x : Data} {t : String} (hx : Spells e x t)

include hx

/-- The text of a value is its own upper case: a declared value by the rule for its spelling. -/
lemma upper_eq (he : (Declaration.enum e).WellFormed) : Text.upper t = t := by
  cases hx with
  | known hp =>
    obtain ⟨v, hv, rfl⟩ := List.mem_map.1 hp
    exact Text.upper_of_upperSnakeCase (he.members.2.2 v hv)
  | unknown hupper _ => exact hupper

variable (h : code.Matches scope e)

include h

/-- Decoding a text gives the value that its upper case is the text of. -/
lemma fromWire_returns (he : (Declaration.enum e).WellFormed) {s : String}
    (hs : Text.upper s = t) : code.fromWire.Returns (machine scope.runtime) [.text s] x := by
  cases hx with
  | known hp => exact fromWire_returns_bare h (nodup_wireVariants_fst he) hp hs
  | unknown _ ht =>
    rw [← hs] at ht ⊢
    exact fromWire_returns_kept h ht

/-- A value is written as its text. -/
lemma asStr_returns (he : (Declaration.enum e).WellFormed) :
    code.asStr.Returns (machine scope.runtime) [x] (.text t) := by
  cases hx with
  | known hp => exact asStr_returns_bare h (List.nodup_append.1 (nodup_wireVariants_snd he)).1 hp
  | unknown _ _ => exact asStr_returns_kept h t

/-- A value is unknown exactly if its text is not declared. -/
lemma isUnknown : code.isUnknown.tested? (machine scope.runtime) x =
    some (decide (t ∉ e.values.map (·.value))) := by
  cases hx with
  | known hp =>
    rw [isUnknown_bare h, ← values_wireVariants, decide_eq_false]
    exact not_not_intro (List.mem_map_of_mem hp)
  | unknown _ ht => rw [isUnknown_kept h, decide_eq_true ht]

end Spells

/-- Whatever a text decodes to has its upper case for a text. -/
lemma spells_of_returns {code : EnumCode} {scope : Scope} {e : Enum}
    (he : (Declaration.enum e).WellFormed) (h : code.Matches scope e) {s : String} {x : Data}
    (hx : code.fromWire.Returns (machine scope.runtime) [.text s] x) :
    Spells e x (Text.upper s) := by
  obtain ⟨y, hy⟩ := exists_spells e s
  rw [hx.unique (hy.fromWire_returns h he rfl)]
  exact hy

end EnumCode

/-- The functions of an enumeration that keeps the rules.  Every text decodes to a value that is
written as its upper case, and that is unknown exactly if the upper case is not declared.  A
declared value decodes, in any case of its letters, to a variant of its own and is written as it is
declared.  Whatever is decoded or listed is decoded again from what is written for it, and what is
written for an unknown value is not declared. -/
theorem enum_texts_round_trip (doc : Document) (h : doc.check = .ok ()) (e : Enum)
    (he : .enum e ∈ doc.declarations) (scope : Scope) :
    ∃ code variants, enumCode? scope e = some code ∧
      code.variants = variants ++ [⟨"Unknown"⟩] ∧ code.variants.Nodup ∧
      variants.length = e.values.length ∧
      let m := EnumCode.machine scope.runtime
      let declared := e.values.map (·.value)
      let known : List EnumCode.Data := variants.map .bare
      code.values.listed? m = some known ∧
      (∀ s, ∃ x, code.fromWire.Returns m [.text s] x ∧
        code.asStr.Returns m [x] (.text (Text.upper s)) ∧
        code.isUnknown.tested? m x = some (decide (Text.upper s ∉ declared))) ∧
      (∀ p ∈ declared.zip known, code.asStr.Returns m [p.2] (.text p.1) ∧
        ∀ s, Text.SameLetters s p.1 → code.fromWire.Returns m [.text s] p.2) ∧
      ∀ x, (∃ s, code.fromWire.Returns m [.text s] x) ∨ x ∈ known →
        ∃ t, code.asStr.Returns m [x] (.text t) ∧ code.fromWire.Returns m [.text t] x ∧
          (code.isUnknown.tested? m x = some true → t ∉ declared) := by
  have hwell := Document.check_ok_iff.1 h _ he
  obtain ⟨code, hcode, hmatches⟩ := EnumCode.exists_enumCode scope e
  refine ⟨code, (wireVariants e).map Prod.snd, hcode, hmatches.variants,
    hmatches.variants ▸ nodup_wireVariants_snd hwell, by simp [wireVariants],
    EnumCode.listed?_values hmatches, ?_, ?_, ?_⟩
  · intro s
    obtain ⟨x, hx⟩ := EnumCode.exists_spells e s
    exact ⟨x, hx.fromWire_returns hmatches hwell rfl, hx.asStr_returns hmatches hwell,
      hx.isUnknown hmatches⟩
  · intro p hp
    have hx : EnumCode.Spells e p.2 p.1 := by
      rw [← EnumCode.values_wireVariants, List.map_map, List.zip_map', List.mem_map] at hp
      obtain ⟨q, hq, rfl⟩ := hp
      exact .known hq
    refine ⟨hx.asStr_returns hmatches hwell, fun s hs => ?_⟩
    exact hx.fromWire_returns hmatches hwell (hs.upper_eq.trans (hx.upper_eq hwell))
  · intro x hx
    obtain ⟨t, ht⟩ : ∃ t, EnumCode.Spells e x t := by
      rcases hx with ⟨s, hs⟩ | hx
      · exact ⟨_, EnumCode.spells_of_returns hwell hmatches hs⟩
      · rw [List.map_map, List.mem_map] at hx
        obtain ⟨p, hp, rfl⟩ := hx
        exact ⟨_, .known hp⟩
    refine ⟨t, ht.asStr_returns hmatches hwell,
      ht.fromWire_returns hmatches hwell (ht.upper_eq hwell), fun hunknown => ?_⟩
    rw [ht.isUnknown hmatches, Option.some.injEq, decide_eq_true_eq] at hunknown
    exact hunknown

/-- An enumeration that declares a value `UNKNOWN`. -/
def shade : Enum := ⟨⟨"m", "Shade"⟩, [⟨"RED", none⟩, ⟨"UNKNOWN", none⟩], none⟩

/-- A document with the enumeration. -/
def shades : Document := ⟨1, [.enum shade]⟩

/-- The declared value `UNKNOWN` is not unknown, in whatever case it is written; a text with a
letter that has two capitals is, and is read again from its upper case. -/
theorem enum_texts_round_trip_shade :
    ∃ c, Contract.ofDocument shades = .ok c ∧ shades.check = .ok () ∧
      .enum shade ∈ shades.declarations ∧
      ∃ code variant x, enumCode? ⟨c, .ofWords ["wire"], "m", []⟩ shade = some code ∧
        variant ≠ ⟨"Unknown"⟩ ∧
        let m := EnumCode.machine (.ofWords ["wire"])
        code.fromWire.Returns m [.text "unKnown"] (.bare variant) ∧
        code.asStr.Returns m [.bare variant] (.text "UNKNOWN") ∧
        code.fromWire.Returns m [.text "straße"] x ∧ code.asStr.Returns m [x] (.text "STRASSE") ∧
        code.isUnknown.tested? m x = some true ∧ code.fromWire.Returns m [.text "STRASSE"] x := by
  obtain ⟨c, hc⟩ : ∃ c, Contract.ofDocument shades = .ok c := Outcome.exists_ok_of_isOk
    (Contract.isOk_of_ranked (fun _ => 0) (by decide) rfl rfl (by decide))
  have hcheck : shades.check = .ok () := rfl
  have hmem : .enum shade ∈ shades.declarations := List.mem_cons_self
  obtain ⟨code, variants, hcode, hvariants, hnodup, hlength, -, hread, hdeclared, hback⟩ :=
    enum_texts_round_trip shades hcheck shade hmem ⟨c, .ofWords ["wire"], "m", []⟩
  obtain ⟨red, unknown, rfl⟩ := List.length_eq_two.1 hlength
  obtain ⟨hwritten, hcase⟩ := hdeclared ("UNKNOWN", .bare unknown) (by simp [shade])
  have hsame : Text.SameLetters "unKnown" "UNKNOWN" := by decide
  obtain ⟨x, hx, hx', hunknown⟩ := hread "straße"
  have hupper : Text.upper "straße" = "STRASSE" := by decide +kernel
  rw [hupper] at hx' hunknown
  obtain ⟨t, ht, hxt, -⟩ := hback x (.inl ⟨_, hx⟩)
  obtain rfl := EnumCode.Data.text.inj (ht.unique hx')
  refine ⟨c, hc, hcheck, hmem, code, unknown, x, hcode, ?_, hcase _ hsame, hwritten, hx, hx',
    hunknown, hxt⟩
  rw [hvariants] at hnodup
  intro heq
  simp [heq] at hnodup

end WireContract.Emit
