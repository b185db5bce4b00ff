import WireContract.Proofs.Evaluation
import WireContract.Proofs.TreeContents
import WireContract.Wire.Tagged

/-!
# The matches of a union agree

Five functions of a union match on its members: the tag of a value, the two ways to hand it to a
visitor, its encoding and its decoding.  Four are in the file of unions, and the visitor with
results is in a file of its own.  Here they are looked up in the files of a tree by their names
(`unionCode?`), read as tables, and run.

As tables they pair the same tags with the same variants (`UnionCode.FollowsTable`).  As programs
they run on a `Machine` that has the runtime library and nothing else (`UnionCode.machine`): how the
value of a member is decoded is left open.  No case of a match is hidden by an earlier one, because
tags that differ when respelled differ, and so do their variants.
-/

namespace WireContract.Rust

/-- The variant that a path names in the type being implemented. -/
def Path.ownVariant? : Path → Option Ident
  | ⟨false, [⟨"Self"⟩, name], []⟩ => some name
  | _ => none

/-- The tag and the variant that a case pairs: from variant to tag, from variant to what is written
under a tag, or from tag to the variant that is made. -/
def Arm.pair? (a : Arm) : Option (String × Ident) :=
  match a.pattern, a.body with
  | .make p _, .literal tag => p.ownVariant?.map (tag, ·)
  | .make p _, .call _ [_, .literal tag, _] => p.ownVariant?.map (tag, ·)
  | .literal tag, .method _ "map" [.path p] => p.ownVariant?.map (tag, ·)
  | _, _ => none

/-- The variant of a case and the method that it calls. -/
def Arm.visit? (a : Arm) : Option (Ident × String) :=
  match a.pattern, a.body with
  | .make p _, .method _ name _ => p.ownVariant?.map (·, name)
  | _, _ => none

end WireContract.Rust

namespace WireContract.Emit

open Rust Schema Wire

/-! ## The functions of a union in a tree -/

/-- What the items of the file at a path are read as. -/
def readAt {β : Type} (f : Forest) (path : List String) (read : Item → List β) : List β :=
  f.files.flatMap fun t => if t.path = path then t.file.items.flatMap read else []

/-- The names of the variants of the type with a name, if the item defines it. -/
def variantsOf (name : Ident) : Item → List (List Ident)
  | .enum _ other variants => if other = name then [variants.map (·.name)] else []
  | _ => []

/-- The variants of a union, and its functions that match on them. -/
structure UnionCode where
  variants : List Ident
  tag : FunctionDef
  serialize : FunctionDef
  deserialize : FunctionDef
  /-- The functions that hand a value to a visitor: one whose methods return nothing and, where it
  is emitted, one whose methods return values. -/
  visits : List FunctionDef

/-- The code of a union in a tree, if the type and each function is there once. -/
def unionCode? (f : Forest) (u : Union) : Option UnionCode :=
  let unions := filePath u.name.module .unions
  let self : Path := .ofIdent (.ofName u.name.name)
  let withOutput := readAt f (filePath u.name.module .visitors)
    (Item.functions none ⟨false, [⟨"super"⟩, .ofName u.name.name], []⟩ "accept_with")
  match readAt f unions (variantsOf (.ofName u.name.name)),
    readAt f unions (Item.functions none self "tag"),
    readAt f unions (Item.functions (some (.ofWords ["serde", "Serialize"])) self "serialize"),
    readAt f unions (Item.functions (some (.ofWords ["serde", "Deserialize"])) self "deserialize"),
    readAt f unions (Item.functions none self "accept") with
  | [variants], [tag], [serialize], [deserialize], [accept] =>
    some ⟨variants, tag, serialize, deserialize, accept :: withOutput⟩
  | _, _, _, _, _ => none

namespace UnionCode

/-! ## Tables -/

/-- The matches pair the tags of a union, in order, with its variants, one to one, and both visitors
have the same method for a variant. -/
structure FollowsTable (code : UnionCode) (u : Union) (cases : List MemberCase) : Prop where
  tags : cases.map (·.tag) = u.members.map (·.tag)
  variants : code.variants = cases.map (·.variant) ++ [⟨"Unknown"⟩]
  nodup_tags : (cases.map (·.tag)).Nodup
  nodup_variants : (cases.map (·.variant)).Nodup
  unknown_notMem : ⟨"Unknown"⟩ ∉ cases.map (·.variant)
  method_ne : ∀ x ∈ cases, x.method ≠ ⟨"visit_unknown"⟩
  pairs : ∀ g ∈ [code.tag, code.serialize, code.deserialize], g.arms.map Arm.pair? =
    cases.map (fun x => some (x.tag, x.variant)) ++ [none]
  visits : ∀ g ∈ code.visits, g.arms.map Arm.visit? =
    cases.map (fun x => some (x.variant, x.method.text)) ++ [some (⟨"Unknown"⟩, "visit_unknown")]

/-! ## Runs -/

/-- What the functions of a union work on; `α` are the values of members. -/
inductive Data (α : Type) where
  | text (s : String)
  | json (v : Json)
  | decoder (r : Json.Reader) (d : Json.Draft)
  /-- A tag with the value under it, as it was read. -/
  | tagged (m : Tagged)
  /-- What is kept of a member that a union does not know. -/
  | unknown (m : Tagged)
  /-- A value that is decoded as soon as its type is known. -/
  | pending (v : Json)
  | content (a : α)
  | constructor (variant : Ident)
  | variant (name : Ident) (inside : Data α)
  | success (x : Data α)
  | failure (e : Json.Fault)
  | encoder
  /-- What an encoder gives for a value under a tag. -/
  | written (tag : String) (value : Data α)
  | visitor
  /-- What a method of a visitor returns. -/
  | visited (method : String) (arg : Data α)

namespace Data

variable {α : Type}

/-- The result of reading. -/
def ofResult {β : Type} (make : β → Data α) : Except Json.Fault β → Data α
  | .ok x => .success (make x)
  | .error e => .failure e

def text? : Data α → Option String
  | .text s => some s
  | _ => none

def parts? : Data α → Option (Path × List (Data α))
  | .variant name inside => some (selfItem name, [inside])
  | _ => none

/-- A value is written under a tag. -/
def serializeMember : List (Data α) → Option (Data α)
  | [.encoder, .text tag, value] => some (.written tag value)
  | _ => none

/-- A value is decoded, as the type that the result has to have. -/
def decodeMember : List (Data α) → Option (Data α)
  | [.json v] => some (.pending v)
  | _ => none

/-- A member is kept as it was read. -/
def fromUnmatched : List (Data α) → Option (Data α)
  | [.tagged m] => some (.unknown m)
  | _ => none

/-- Functions outside the runtime library: the encoding of an unknown member, and constructors. -/
def plainCall? : Path → List (Data α) → Option (Data α)
  | ⟨false, [⟨"serde"⟩, ⟨"Serialize"⟩, ⟨"serialize"⟩], []⟩, [.unknown m, .encoder] =>
    some (.written m.tag (.json m.value))
  | ⟨false, [⟨"Ok"⟩], []⟩, [x] => some (.success x)
  | ⟨false, [⟨"Self"⟩, name], []⟩, [x] => some (.variant name x)
  | _, _ => none

/-- The functions that the matches call. -/
def call? (runtime p : Path) (args : List (Data α)) : Option (Data α) :=
  if p = runtime.join ["union", "serialize_member"] then serializeMember args
  else if p = runtime.join ["union", "decode_member"] then decodeMember args
  else if p = runtime.join ["union", "UnknownMember", "from_unmatched"] then fromUnmatched args
  else plainCall? p args

/-- Reading a tag with the value under it. -/
def traitCall? (runtime : Path) (self : Ty) (ofTrait : Path) (name : Ident)
    (args : List (Data α)) : Option (Data α) :=
  if self.path? = some (runtime.join ["union", "TaggedMember"]) ∧
      ofTrait = .ofWords ["serde", "Deserialize"] ∧ name = ⟨"deserialize"⟩ then
    match args with
    | [.decoder r d] => some (ofResult .tagged (Tagged.read r d))
    | _ => none
  else none

/-- The methods; the type of a decoded value is that of the variant it is put in. -/
def method? (decode : Ident → Json → Except Json.Fault α) :
    Data α → String → List (Data α) → Option (Data α)
  | .tagged m, "tag", [] => some (.text m.tag)
  | .tagged m, "into_value", [] => some (.json m.value)
  | .unknown m, "tag", [] => some (.text m.tag)
  | .pending v, "map", [.constructor name] =>
    some (ofResult (fun a => .variant name (.content a)) (decode name v))
  | .visitor, name, [x] => some (.visited name x)
  | _, _, _ => none

def branch? : Data α → Option (Except (Data α) (Data α))
  | .success x => some (.ok x)
  | .failure e => some (.error (.failure e))
  | _ => none

/-- The calls of a visitor's methods. -/
def visitorCalls (calls : List (Call (Data α))) : List (String × List (Data α)) :=
  calls.filterMap fun c =>
    match c.receiver with
    | .visitor => some (c.method, c.args)
    | _ => none

end Data

/-- The machine with the runtime library at a path, where the value of a variant is decoded by
`decode`. -/
def machine {α : Type} (runtime : Path) (decode : Ident → Json → Except Json.Fault α) :
    Machine (Data α) where
  text := .text
  text? := Data.text?
  item? p := p.ownVariant?.map .constructor
  parts? := Data.parts?
  call? := Data.call? runtime
  traitCall? := Data.traitCall? runtime
  method? := Data.method? decode
  branch? := Data.branch?

/-- A value of the union has the tag, is written under it, and each visitor is called once, by the
method, with the argument. -/
structure Handles {α : Type} (code : UnionCode) (m : Machine (Data α)) (x : Data α) (tag : String)
    (inside : Data α) (method : String) (arg : Data α) : Prop where
  hasTag : code.tag.Returns m [x] (.text tag)
  written : code.serialize.Returns m [x, .encoder] (.written tag inside)
  visited : ∀ g ∈ code.visits, ∃ calls, g.run m [x, .visitor] = some (.visited method arg, calls) ∧
    Data.visitorCalls calls = [(method, [arg])]

/-! ## The code as it is emitted -/

/-- The functions are the matches over the members of a union. -/
structure Matches (code : UnionCode) (scope : Scope) (u : Union) : Prop where
  variants : code.variants = (memberCases u).map (·.variant) ++ [⟨Ident.unknownVariant⟩]
  tag : code.tag.params = [⟨"self"⟩] ∧
    code.tag.body = ⟨[], .choose (.var "self") (tagArms u)⟩
  serialize : code.serialize.params = [⟨"self"⟩, ⟨"serializer"⟩] ∧
    code.serialize.body = ⟨[], .choose (.var "self") (encodeArms scope u)⟩
  deserialize : code.deserialize.params = [⟨"deserializer"⟩] ∧
    code.deserialize.body = ⟨[(⟨"member"⟩, decodeWhole (scope.libType ["union", "TaggedMember"]))],
      .choose (.method (.var "member") "tag" []) (decodeArms scope u)⟩
  visits : ∀ g ∈ code.visits, g.params = [⟨"self"⟩, ⟨"visitor"⟩] ∧
    g.body = ⟨[], .choose (.var "self") (visitArms u)⟩

/-! ## Members -/

section Members

variable {u : Union} (hu : DistinctMembers Text.pascal (u.members.map (·.tag)))

lemma tags_memberCases (u : Union) :
    (memberCases u).map (·.tag) = u.members.map (·.tag) := by
  rw [memberCases, List.map_map]
  rfl

include hu

lemma nodup_tags_memberCases : ((memberCases u).map (·.tag)).Nodup := by
  rw [tags_memberCases]
  exact hu.distinct.of_map _

lemma nodup_variants_memberCases :
    ((memberCases u).map (·.variant) ++ [Ident.mk Ident.unknownVariant]).Nodup := by
  have hvariants : (memberCases u).map (·.variant) =
      ((u.members.map (·.tag)).map Text.pascal).map Ident.variant := by
    rw [memberCases, List.map_map, List.map_map, List.map_map]
    rfl
  rw [hvariants]
  refine Ident.nodup_variants (fun s hs => ?_) hu.distinct
  obtain ⟨tag, htag, rfl⟩ := List.mem_map.1 hs
  exact Text.alphanumeric_pascal (hu.identifiers tag htag)

end Members

/-- The method of a member is not the one for unknown members. -/
lemma method_ne_of_mem {u : Union} {x : MemberCase} (hx : x ∈ memberCases u) :
    x.method ≠ ⟨Ident.unknownVisitor⟩ := by
  obtain ⟨member, -, rfl⟩ := List.mem_map.1 hx
  have hkept : Ident.mk (Ident.unknownVisitor ++ "_") ≠ ⟨Ident.unknownVisitor⟩ := by decide
  rw [Ident.visitMethod]
  by_cases hname : ("visit_" ++ Text.snake member.tag == Ident.unknownVisitor) = true
  · rw [if_pos hname]
    exact hkept
  · rw [if_neg hname]
    intro heq
    exact hname (beq_iff_eq.2 (Ident.mk.inj heq))

/-! ## The case that is taken -/

section Cases

variable {α : Type} (runtime : Path) (decode : Ident → Json → Except Json.Fault α) {u : Union}
  (hu : DistinctMembers Text.pascal (u.members.map (·.tag)))

lemma bindings?_memberPat (c : MemberCase) (p : Pat) (name : Ident) (x : Data α) :
    (memberPat c p).bindings? (machine runtime decode) (.variant name x) =
      if c.variant = name then
        (p.bindings? (machine runtime decode) x).map (· ++ [])
      else none := by
  have hparts : (machine runtime decode).parts? (.variant name x) = some (selfItem name, [x]) := rfl
  have hpath : selfItem c.variant = selfItem name ↔ c.variant = name := by simp [selfItem]
  rw [memberPat, Pat.bindings?, hparts]
  simp only [hpath]
  by_cases hname : c.variant = name
  · rw [if_pos hname, if_pos hname]
    cases hp : p.bindings? (machine runtime decode) x with
    | none => simp [Pat.bindingsOfAll?, hp]
    | some env => simp [Pat.bindingsOfAll?, hp]
  · rw [if_neg hname, if_neg hname]

include hu

/-- A value of a member is taken by the case of the member. -/
lemma firstArm?_member {arm : MemberCase → Arm} {p : Pat}
    (harm : ∀ c, (arm c).pattern = memberPat c p) {c : MemberCase} (hc : c ∈ memberCases u)
    {x : Data α} {env : Env (Data α)}
    (henv : p.bindings? (machine runtime decode) x = some env) (rest : List Arm) :
    firstArm? (machine runtime decode) ((memberCases u).map arm ++ rest) (.variant c.variant x) =
      some (env, (arm c).body) := by
  have hvariants := (List.nodup_append.1 (nodup_variants_memberCases hu)).1
  refine firstArm?_map_append_of_mem _ hc ?_ (fun y hy hne => ?_) rest
  · rw [harm, bindings?_memberPat, if_pos rfl, henv, Option.map_some, List.append_nil]
  · rw [harm, bindings?_memberPat, if_neg]
    exact fun heq => hne (List.inj_on_of_nodup_map hvariants hy hc heq)

/-- A value that the union does not know is taken by the last case. -/
lemma firstArm?_unknown {arm : MemberCase → Arm} {p : Pat}
    (harm : ∀ c, (arm c).pattern = memberPat c p) (x : Data α) (body : Expr) :
    firstArm? (machine runtime decode) ((memberCases u).map arm ++ [⟨unknownPat, body⟩])
      (.variant ⟨Ident.unknownVariant⟩ x) = some ([(⟨"unknown"⟩, x)], body) := by
  have hapart := (List.nodup_append.1 (nodup_variants_memberCases hu)).2.2
  rw [firstArm?_append_of_forall]
  · rfl
  · intro a ha
    obtain ⟨c, hc, rfl⟩ := List.mem_map.1 ha
    rw [harm, bindings?_memberPat, if_neg]
    exact hapart _ (List.mem_map_of_mem hc) _ List.mem_cons_self

/-- A declared tag is taken by the case of its member. -/
lemma firstArm?_tag {arm : MemberCase → Arm} (harm : ∀ c, (arm c).pattern = .literal c.tag)
    {c : MemberCase} (hc : c ∈ memberCases u) (rest : List Arm) :
    firstArm? (machine runtime decode) ((memberCases u).map arm ++ rest) (.text c.tag) =
      some ([], (arm c).body) := by
  refine firstArm?_map_append_of_mem _ hc ?_ (fun y hy hne => ?_) rest
  · rw [harm, Pat.bindings?]
    exact if_pos rfl
  · rw [harm, Pat.bindings?]
    refine if_neg fun heq => hne ?_
    exact List.inj_on_of_nodup_map (nodup_tags_memberCases hu) hy hc (Option.some.inj heq).symm

omit hu

/-- Any other tag is taken by the last case. -/
lemma firstArm?_otherTag {arm : MemberCase → Arm} (harm : ∀ c, (arm c).pattern = .literal c.tag)
    {tag : String} (htag : tag ∉ u.members.map (·.tag)) (body : Expr) :
    firstArm? (machine runtime decode) ((memberCases u).map arm ++ [⟨.wild, body⟩]) (.text tag) =
      some ([], body) := by
  rw [firstArm?_append_of_forall]
  · rfl
  · intro a ha
    obtain ⟨c, hc, rfl⟩ := List.mem_map.1 ha
    rw [harm, Pat.bindings?]
    refine if_neg fun heq => htag ?_
    rw [← tags_memberCases, Option.some.inj heq]
    exact List.mem_map_of_mem hc

end Cases

/-! ## Running the matches -/

section Library

variable {α : Type} (runtime : Path)

lemma join_ne_join {words words' : List String} (h : words ≠ words') :
    runtime.join words ≠ runtime.join words' := by
  intro heq
  have hsegments := List.append_cancel_left (congrArg Path.segments heq)
  exact h (List.map_injective_iff.2 (fun _ _ => Ident.mk.inj) hsegments)

/-- A path that ends in another word than an item of the library is not the path of the item. -/
lemma ne_join {q : Path} {words : List String} (hwords : words ≠ [])
    (h : q.segments.getLast? ≠ (words.map Ident.mk).getLast?) : q ≠ runtime.join words := by
  rintro rfl
  refine h ?_
  rw [Path.join, List.getLast?_append_of_ne_nil _ (by simpa using hwords)]

lemma call?_serializeMember (args : List (Data α)) :
    Data.call? runtime (runtime.join ["union", "serialize_member"]) args =
      Data.serializeMember args :=
  if_pos rfl

lemma call?_decodeMember (args : List (Data α)) :
    Data.call? runtime (runtime.join ["union", "decode_member"]) args = Data.decodeMember args := by
  rw [Data.call?, if_neg (join_ne_join runtime (by decide)), if_pos rfl]

lemma call?_fromUnmatched (args : List (Data α)) :
    Data.call? runtime (runtime.join ["union", "UnknownMember", "from_unmatched"]) args =
      Data.fromUnmatched args := by
  rw [Data.call?, if_neg (join_ne_join runtime (by decide)),
    if_neg (join_ne_join runtime (by decide)), if_pos rfl]

/-- A path that ends in no word of the library is none of its functions. -/
lemma call?_of_getLast? {q : Path} {last : Ident} (hq : q.segments.getLast? = some last)
    (hlast : last ∉ [Ident.mk "serialize_member", ⟨"decode_member"⟩, ⟨"from_unmatched"⟩])
    (args : List (Data α)) : Data.call? runtime q args = Data.plainCall? q args := by
  simp only [List.mem_cons, List.not_mem_nil, or_false, not_or] at hlast
  have hne : ∀ words : List String, words ≠ [] → some last ≠ (words.map Ident.mk).getLast? →
      q ≠ runtime.join words := fun words hwords h => ne_join runtime hwords (hq ▸ h)
  rw [Data.call?, if_neg (hne _ (by simp) (by simp [hlast.1])),
    if_neg (hne _ (by simp) (by simp [hlast.2.1])), if_neg (hne _ (by simp) (by simp [hlast.2.2]))]

end Library

/-- The matches run over the members of the union. -/
lemma Matches.followsTable {code : UnionCode} {scope : Scope} {u : Union}
    (h : code.Matches scope u) (hu : DistinctMembers Text.pascal (u.members.map (·.tag))) :
    code.FollowsTable u (memberCases u) where
  tags := tags_memberCases u
  variants := h.variants
  nodup_tags := nodup_tags_memberCases hu
  nodup_variants := (List.nodup_append.1 (nodup_variants_memberCases hu)).1
  unknown_notMem hmem :=
    (List.nodup_append.1 (nodup_variants_memberCases hu)).2.2 _ hmem _ List.mem_cons_self rfl
  method_ne _ hx := method_ne_of_mem hx
  pairs := by
    intro g hg
    simp only [List.mem_cons, List.not_mem_nil, or_false] at hg
    rcases hg with rfl | rfl | rfl
    · rw [FunctionDef.arms_eq h.tag.2, tagArms, List.map_append, List.map_map]
      rfl
    · rw [FunctionDef.arms_eq h.serialize.2, encodeArms, List.map_append, List.map_map]
      rfl
    · rw [FunctionDef.arms_eq h.deserialize.2, decodeArms, List.map_append, List.map_map]
      rfl
  visits := by
    intro g hg
    rw [FunctionDef.arms_eq (h.visits g hg).2, visitArms, List.map_append, List.map_map]
    rfl

section Runs

variable {α : Type} {code : UnionCode} {scope : Scope} {u : Union} (h : code.Matches scope u)
  (hu : DistinctMembers Text.pascal (u.members.map (·.tag)))
  (decode : Ident → Json → Except Json.Fault α)

include h hu

/-- A value of a member has the tag of the member, is written under it, and both visitors get the
value inside by the method of the member. -/
lemma handles_member {c : MemberCase} (hc : c ∈ memberCases u) (x : Data α) :
    code.Handles (machine scope.runtime decode) (.variant c.variant x) c.tag x c.method.text x where
  hasTag := by
    have hcase : firstArm? (machine scope.runtime decode) (tagArms u) (.variant c.variant x) =
        some ([], .literal c.tag) :=
      firstArm?_member _ decode hu (fun _ => rfl) hc rfl _
    exact ⟨_, FunctionDef.run_choose h.tag rfl rfl hcase rfl⟩
  written := by
    have hcase : firstArm? (machine scope.runtime decode) (encodeArms scope u)
        (.variant c.variant x) = some ([(⟨"value"⟩, x)],
          .call (.path (scope.lib ["union", "serialize_member"]))
            [.var "serializer", .literal c.tag, .var "value"]) :=
      firstArm?_member _ decode hu (fun _ => rfl) hc rfl _
    exact ⟨_, FunctionDef.run_choose h.serialize rfl rfl hcase
      (Expr.run_call rfl (call?_serializeMember scope.runtime _))⟩
  visited := by
    intro g hg
    have hcase : firstArm? (machine scope.runtime decode) (visitArms u) (.variant c.variant x) =
        some ([(⟨"value"⟩, x)], .method (.var "visitor") c.method.text [.var "value"]) :=
      firstArm?_member _ decode hu (fun _ => rfl) hc rfl _
    exact ⟨_, FunctionDef.run_choose (h.visits g hg) rfl rfl hcase rfl, rfl⟩

/-- A member that the union does not know has the tag that it was read with, is written under it,
and both visitors get the tag. -/
lemma handles_unknown (m : Tagged) :
    code.Handles (machine scope.runtime decode) (.variant ⟨Ident.unknownVariant⟩ (.unknown m)) m.tag
      (.json m.value) Ident.unknownVisitor (.text m.tag) where
  hasTag := by
    have hcase : firstArm? (machine scope.runtime decode) (tagArms u)
        (.variant ⟨Ident.unknownVariant⟩ (.unknown m)) =
          some ([(⟨"unknown"⟩, .unknown m)], unknownTag) :=
      firstArm?_unknown _ decode hu (fun _ => rfl) _ _
    exact ⟨_, FunctionDef.run_choose h.tag rfl rfl hcase rfl⟩
  written := by
    have hcase : firstArm? (machine scope.runtime decode) (encodeArms scope u)
        (.variant ⟨Ident.unknownVariant⟩ (.unknown m)) = some ([(⟨"unknown"⟩, .unknown m)],
          .call (.path (.ofWords ["serde", "Serialize", "serialize"]))
            [.var "unknown", .var "serializer"]) :=
      firstArm?_unknown _ decode hu (fun _ => rfl) _ _
    exact ⟨_, FunctionDef.run_choose h.serialize rfl rfl hcase
      (Expr.run_call rfl (call?_of_getLast? scope.runtime rfl (by decide) _))⟩
  visited := by
    intro g hg
    have hcase : firstArm? (machine scope.runtime decode) (visitArms u)
        (.variant ⟨Ident.unknownVariant⟩ (.unknown m)) = some ([(⟨"unknown"⟩, .unknown m)],
          .method (.var "visitor") Ident.unknownVisitor [unknownTag]) :=
      firstArm?_unknown _ decode hu (fun _ => rfl) _ _
    exact ⟨_, FunctionDef.run_choose (h.visits g hg) rfl rfl hcase rfl, rfl⟩

omit h hu in
/-- Decoding starts with the tag and the value under it. -/
lemma run_decodeWhole {r : Json.Reader} {d : Json.Draft} {x : Except (Data α) (Data α)}
    (hx : Data.branch? (Data.ofResult .tagged (Tagged.read r d)) = some x) :
    (decodeWhole (scope.libType ["union", "TaggedMember"])).run (machine scope.runtime decode)
      [(⟨"deserializer"⟩, .decoder r d)] [] = some (x, []) := by
  have hread : (machine scope.runtime decode).traitCall? (scope.libType ["union", "TaggedMember"])
      (.ofWords ["serde", "Deserialize"]) ⟨"deserialize"⟩ [.decoder r d] =
        some (Data.ofResult .tagged (Tagged.read r d)) :=
    if_pos ⟨rfl, rfl, rfl⟩
  exact Expr.run_orReturn (Expr.run_traitCall rfl hread) hx

omit hu in
/-- What is not a member is refused. -/
lemma returns_failure {r : Json.Reader} {d : Json.Draft} {e : Json.Fault}
    (hread : Tagged.read r d = .error e) :
    code.deserialize.Returns (machine scope.runtime decode) [.decoder r d] (.failure e) := by
  have hx : Data.branch? (Data.ofResult .tagged (Tagged.read r d) : Data α) =
      some (.error (.failure e)) := by
    rw [hread]
    rfl
  exact ⟨_, FunctionDef.run_let_of_error h.deserialize rfl (run_decodeWhole decode hx)⟩

omit hu in
/-- Decoding takes the case of the tag that was read. -/
lemma returns_of_firstArm? {r : Json.Reader} {d : Json.Draft} {m : Tagged} {body : Expr}
    {w : Data α} (hread : Tagged.read r d = .ok m)
    (hcase : firstArm? (machine scope.runtime decode) (decodeArms scope u) (.text m.tag) =
      some ([], body))
    (hbody : ∃ calls, body.run (machine scope.runtime decode)
      [(⟨"member"⟩, .tagged m), (⟨"deserializer"⟩, .decoder r d)] [⟨.tagged m, "tag", []⟩] =
        some (.ok w, calls)) :
    code.deserialize.Returns (machine scope.runtime decode) [.decoder r d] w := by
  have hx : Data.branch? (Data.ofResult .tagged (Tagged.read r d) : Data α) =
      some (.ok (.tagged m)) := by
    rw [hread]
    rfl
  obtain ⟨calls, hbody⟩ := hbody
  exact ⟨_, FunctionDef.run_let h.deserialize rfl (run_decodeWhole decode hx)
    ((Tail.run_choose _ rfl hcase).trans hbody)⟩

/-- A declared tag decodes, if the value under it does, to the variant of its member. -/
lemma returns_member {c : MemberCase} (hc : c ∈ memberCases u) {r : Json.Reader} {d : Json.Draft}
    {m : Tagged} (hread : Tagged.read r d = .ok m) (htag : c.tag = m.tag) :
    code.deserialize.Returns (machine scope.runtime decode) [.decoder r d]
      (.ofResult (fun a => .variant c.variant (.content a)) (decode c.variant m.value)) := by
  have hcase : firstArm? (machine scope.runtime decode) (decodeArms scope u) (.text c.tag) =
      some ([], .method (.call (.path (scope.lib ["union", "decode_member"]))
        [.method (.var "member") "into_value" []]) "map" [.path (selfItem c.variant)]) :=
    firstArm?_tag _ decode hu (fun _ => rfl) hc _
  rw [htag] at hcase
  refine returns_of_firstArm? h decode hread hcase ?_
  exact ⟨_, Expr.run_method (Expr.run_call (Expr.runAll_singleton rfl)
    (call?_decodeMember scope.runtime _)) rfl rfl⟩

omit hu in
/-- A tag that is not declared decodes to the member as it was read. -/
lemma returns_unknown {r : Json.Reader} {d : Json.Draft} {m : Tagged}
    (hread : Tagged.read r d = .ok m) (htag : m.tag ∉ u.members.map (·.tag)) :
    code.deserialize.Returns (machine scope.runtime decode) [.decoder r d]
      (.success (.variant ⟨Ident.unknownVariant⟩ (.unknown m))) := by
  refine returns_of_firstArm? h decode hread
    (firstArm?_otherTag scope.runtime decode (fun _ => rfl) htag _) ?_
  refine ⟨[⟨.tagged m, "tag", []⟩], ?_⟩
  -- from the inside out: the member is kept, put in its variant and that in a result
  refine Expr.run_call (Expr.runAll_singleton ?_)
    (call?_of_getLast? scope.runtime rfl (by decide) [.variant ⟨Ident.unknownVariant⟩ (.unknown m)])
  refine Expr.run_call (Expr.runAll_singleton ?_)
    (call?_of_getLast? scope.runtime rfl (by decide) [.unknown m])
  exact Expr.run_call (Expr.runAll_singleton rfl) (call?_fromUnmatched scope.runtime [.tagged m])

end Runs

end UnionCode

/-! ## The functions in the files -/

/-- A list in which only one element gives anything. -/
lemma flatMap_eq_of_nodup {α β : Type} {l : List α} (hl : l.Nodup) {a : α} (ha : a ∈ l)
    {f : α → List β} (h : ∀ b ∈ l, b ≠ a → f b = []) : l.flatMap f = f a := by
  obtain ⟨before, after, rfl⟩ := List.append_of_mem ha
  have hapart := (List.nodup_middle.1 hl).notMem
  have hnil : ∀ b ∈ before ++ after, f b = [] := by
    intro b hb
    refine h b ?_ fun heq => hapart (heq ▸ hb)
    rcases List.mem_append.1 hb with hb | hb
    · exact List.mem_append_left _ hb
    · exact List.mem_append_right _ (List.mem_cons_of_mem _ hb)
  rw [List.forall_mem_append] at hnil
  rw [List.flatMap_append, List.flatMap_cons, List.flatMap_eq_nil_iff.2 hnil.1,
    List.flatMap_eq_nil_iff.2 hnil.2, List.nil_append, List.append_nil]

/-! The items of a union define its type and implement one function of each name for it, and nothing
for any other type. -/

section Items

variable (scope : Scope) (u : Union)

lemma variantsOf_unionItems : (unionItems scope u).flatMap (variantsOf (.ofName u.name.name)) =
    [(memberCases u).map (·.variant) ++ [⟨Ident.unknownVariant⟩]] := by
  simp [unionItems, variantsOf, serializeImpl, deserializeImpl, unionVariants, memberCases]

lemma variantsOf_unionItems_of_ne {name : Ident} (hname : .ofName u.name.name ≠ name) :
    (unionItems scope u).flatMap (variantsOf name) = [] := by
  simp [unionItems, variantsOf, serializeImpl, deserializeImpl, hname]

lemma functions_unionItems :
    let read ofTrait name := (unionItems scope u).flatMap
      (Item.functions ofTrait (.ofIdent (.ofName u.name.name)) name)
    (∃ g, read none "tag" = [g] ∧ g.params = [⟨"self"⟩] ∧
      g.body = ⟨[], .choose (.var "self") (tagArms u)⟩) ∧
    (∃ g, read (some (.ofWords ["serde", "Serialize"])) "serialize" = [g] ∧
      g.params = [⟨"self"⟩, ⟨"serializer"⟩] ∧
      g.body = ⟨[], .choose (.var "self") (encodeArms scope u)⟩) ∧
    (∃ g, read (some (.ofWords ["serde", "Deserialize"])) "deserialize" = [g] ∧
      g.params = [⟨"deserializer"⟩] ∧
      g.body = ⟨[(⟨"member"⟩, decodeWhole (scope.libType ["union", "TaggedMember"]))],
        .choose (.method (.var "member") "tag" []) (decodeArms scope u)⟩) ∧
    ∃ g, read none "accept" = [g] ∧ g.params = [⟨"self"⟩, ⟨"visitor"⟩] ∧
      g.body = ⟨[], .choose (.var "self") (visitArms u)⟩ := by
  refine ⟨?_, ?_, ?_, ?_⟩ <;>
    simp [unionItems, Item.functions, serializeImpl, deserializeImpl, ownType, Ty.ofPath, Ty.path?,
      ImplMember.function?, getter, signature, Path.ofWords, FunctionDef.params]

lemma functions_unionItems_of_ne {self : Path} (hself : self ≠ .ofIdent (.ofName u.name.name))
    (ofTrait : Option Path) (name : String) :
    (unionItems scope u).flatMap (Item.functions ofTrait self name) = [] := by
  simp [unionItems, Item.functions, serializeImpl, deserializeImpl, ownType, Ty.ofPath, Ty.path?,
    Ne.symm hself]

lemma functions_visitorItems :
    ∃ g, (visitorItems scope u).flatMap
        (Item.functions none (scope.imports.pathTo u.name) "accept_with") = [g] ∧
      g.params = [⟨"self"⟩, ⟨"visitor"⟩] ∧ g.body = ⟨[], .choose (.var "self") (visitArms u)⟩ := by
  simp [visitorItems, Item.functions, Ty.ofPath, Ty.path?, ImplMember.function?, FunctionDef.params]

lemma functions_visitorItems_of_ne {self : Path} (hself : self ≠ scope.imports.pathTo u.name)
    (name : String) : (visitorItems scope u).flatMap (Item.functions none self name) = [] := by
  simp [visitorItems, Item.functions, Ty.ofPath, Ty.path?, Ne.symm hself]

end Items

/-- The imports of a file are read as nothing. -/
lemma flatMap_items_fileOf {β : Type} {read : Item → List β}
    (huse : ∀ attrs isPublic p what, read (.use attrs isPublic p what) = []) (c : Contract)
    (runtime : Path) (server : Bool) (module : String) (g : Group) (ds : List Declaration) :
    (fileOf c runtime server module g ds).items.flatMap read =
      ds.flatMap fun d => (g.items (scopeOf c runtime module ds) server d).flatMap read := by
  have himports : (scopeOf c runtime module ds).imports.items.flatMap read = [] := by
    rw [Imports.items, List.flatMap_map]
    exact List.flatMap_eq_nil_iff.2 fun _ _ => huse ..
  rw [fileOf, List.flatMap_append, himports, List.nil_append, List.flatMap_assoc]

/-- The scope of the file of a group in a module. -/
def groupScope (c : Contract) (runtime : Path) (module : String) (g : Group) : Scope :=
  scopeOf c runtime module ((c.registry.moduleDeclarations module).filter g.has)

section Emitted

variable {doc : Document} {c : Contract} (hof : c.Of doc) {runtime : Path} {o : Options}

include hof

lemma ofName_ne_of_ne {d d' : Declaration} (hd : d ∈ c.registry.declarations)
    (hd' : d' ∈ c.registry.declarations) (hmodule : d.name.module = d'.name.module)
    (hne : d ≠ d') : Ident.ofName d.name.name ≠ .ofName d'.name.name := by
  intro heq
  have hname := Ident.ofName_inj
    ((hof.lawful.wellFormed d hd).alphanumeric List.mem_cons_self)
    ((hof.lawful.wellFormed d' hd').alphanumeric List.mem_cons_self) heq
  exact hne (hof.indexed.eq_of_name_eq hd hd' (QualifiedName.eq_of_parts hmodule hname))

/-- The file of a group is read as the items of one declaration, if those of the others are read as
nothing. -/
lemma readAt_filePath (hf : emit c o = .ok (forestOf c runtime o)) {d : Declaration}
    (hd : d ∈ c.registry.declarations) {g : Group} (hg : g ∈ o.groups) (hhas : g.has d = true)
    {β : Type} {read : Item → List β}
    (huse : ∀ attrs isPublic p what, read (.use attrs isPublic p what) = [])
    (hothers : ∀ d' ∈ c.registry.declarations, g.has d' = true →
      d'.name.module = d.name.module → .ofName d'.name.name ≠ Ident.ofName d.name.name →
        (g.items (groupScope c runtime d.name.module g) o.server d').flatMap read = []) :
    readAt (forestOf c runtime o) (filePath d.name.module g) read =
      (g.items (groupScope c runtime d.name.module g) o.server d).flatMap read := by
  have hmem : d ∈ (c.registry.moduleDeclarations d.name.module).filter g.has :=
    List.mem_filter.2 ⟨List.mem_filter.2 ⟨hd, by simp⟩, hhas⟩
  have hs : ⟨g, fileOf c runtime o.server d.name.module g
      ((c.registry.moduleDeclarations d.name.module).filter g.has)⟩ ∈
        moduleFiles c runtime o d.name.module :=
    mem_moduleFiles_iff.2 ⟨hg, List.ne_nil_of_mem hmem, rfl⟩
  obtain ⟨ht, hpath⟩ := (arranges_forestOf c runtime o).mem_files_filePath_iff.2
    ⟨mem_modules_of_mem_moduleFiles hs, _, hs, rfl, rfl⟩
  have hpaths := nodup_files_of_emit hf
  have hds : ((c.registry.moduleDeclarations d.name.module).filter g.has).Nodup :=
    (List.Nodup.of_map _ hof.lawful.distinct).sublist
      (List.filter_sublist.trans List.filter_sublist)
  rw [readAt, flatMap_eq_of_nodup (hpaths.of_map _) ht, if_pos hpath]
  · refine (flatMap_items_fileOf huse ..).trans (flatMap_eq_of_nodup hds hmem fun d' hd' hne => ?_)
    obtain ⟨hd', hhas'⟩ := List.mem_filter.1 hd'
    obtain ⟨hd', hmodule⟩ := List.mem_filter.1 hd'
    have hmodule : d'.name.module = d.name.module := by simpa using hmodule
    exact hothers d' hd' hhas' hmodule (ofName_ne_of_ne hof hd' hd hmodule hne)
  · intro t' ht' hne
    refine if_neg fun hpath' => hne ?_
    exact List.inj_on_of_nodup_map hpaths ht' ht (hpath'.trans hpath.symm)

/-- The file of unions is read as the items of one union, if those of unions with other names are
read as nothing. -/
lemma readAt_unions (hf : emit c o = .ok (forestOf c runtime o)) {u : Union}
    (hu : .union u ∈ c.registry.declarations) {β : Type} {read : Item → List β}
    (huse : ∀ attrs isPublic p what, read (.use attrs isPublic p what) = [])
    (hothers : ∀ u' : Union, .ofName u'.name.name ≠ Ident.ofName u.name.name →
      (unionItems (groupScope c runtime u.name.module .unions) u').flatMap read = []) :
    readAt (forestOf c runtime o) (filePath u.name.module .unions) read =
      (unionItems (groupScope c runtime u.name.module .unions) u).flatMap read := by
  have hgroup : .unions ∈ o.groups := Options.mem_groups_iff.2 nofun
  refine readAt_filePath hof hf hu hgroup rfl huse fun d' _ hhas' _ hne => ?_
  cases d' with
  | union u' => exact hothers u' hne
  | «alias» | enum | object | error => cases hhas'

omit hof in
/-- A file that is not emitted has no items. -/
lemma readAt_visitors_of_not (hvisitors : o.visitors = false) (module : String) {β : Type}
    (read : Item → List β) :
    readAt (forestOf c runtime o) (filePath module .visitors) read = [] := by
  refine List.flatMap_eq_nil_iff.2 fun t ht => if_neg fun hpath => ?_
  obtain ⟨-, s, hs, hgroup, -⟩ :=
    (arranges_forestOf c runtime o).mem_files_filePath_iff.1 ⟨ht, hpath⟩
  have hemitted := Options.mem_groups_iff.1 (mem_moduleFiles_iff.1 hs).1 hgroup
  rw [hvisitors] at hemitted
  cases hemitted

/-- The visitor that returns values is handed a value by one function, where it is emitted. -/
lemma readAt_visitors (hf : emit c o = .ok (forestOf c runtime o)) {u : Union}
    (hu : .union u ∈ c.registry.declarations) :
    let functions := readAt (forestOf c runtime o) (filePath u.name.module .visitors)
      (Item.functions none ⟨false, [⟨"super"⟩, .ofName u.name.name], []⟩ "accept_with")
    functions.length = (if o.visitors then 1 else 0) ∧
      ∀ g ∈ functions, g.params = [⟨"self"⟩, ⟨"visitor"⟩] ∧
        g.body = ⟨[], .choose (.var "self") (visitArms u)⟩ := by
  cases hvisitors : o.visitors with
  | false =>
    simp only [readAt_visitors_of_not hvisitors]
    exact ⟨rfl, fun g hg => (List.not_mem_nil hg).elim⟩
  | true =>
    have hpath : ∀ u' : Union, u'.name.module = u.name.module →
        (groupScope c runtime u.name.module .visitors).imports.pathTo u'.name =
          ⟨false, [⟨"super"⟩, .ofName u'.name.name], []⟩ :=
      fun u' hmodule => Imports.pathTo_of_eq hmodule
    have hgroup : .visitors ∈ o.groups := Options.mem_groups_iff.2 fun _ => hvisitors
    obtain ⟨g, hg, hg'⟩ :=
      functions_visitorItems (groupScope c runtime u.name.module .visitors) u
    have hone : readAt (forestOf c runtime o) (filePath u.name.module .visitors)
        (Item.functions none ⟨false, [⟨"super"⟩, .ofName u.name.name], []⟩ "accept_with") =
        [g] := by
      rw [← hg, hpath u rfl]
      refine readAt_filePath hof hf hu hgroup rfl (fun _ _ _ _ => rfl)
        fun d' _ hhas' hmodule hne => ?_
      cases d' with
      | union u' =>
        refine functions_visitorItems_of_ne _ u' (fun heq => hne ?_) _
        have hsegments := congrArg Path.segments (heq.trans (hpath u' hmodule))
        exact (List.singleton_inj.1 (List.cons.inj hsegments).2).symm
      | «alias» | enum | object | error => cases hhas'
    simp only [hone]
    refine ⟨rfl, fun g' hmem => ?_⟩
    rw [List.mem_singleton.1 hmem]
    exact hg'

/-- The code of a union in the tree is what is emitted for it. -/
lemma exists_unionCode (hf : emit c o = .ok (forestOf c runtime o)) {u : Union}
    (hu : .union u ∈ c.registry.declarations) :
    ∃ code scope, unionCode? (forestOf c runtime o) u = some code ∧ scope.runtime = runtime ∧
      code.Matches scope u ∧ code.visits.length = if o.visitors then 2 else 1 := by
  have hvariants := readAt_unions hof hf hu (fun _ _ _ _ => rfl)
    (fun u' hne => variantsOf_unionItems_of_ne _ u' hne)
  have hfunctions : ∀ ofTrait name,
      readAt (forestOf c runtime o) (filePath u.name.module .unions)
        (Item.functions ofTrait (.ofIdent (.ofName u.name.name)) name) =
      (unionItems (groupScope c runtime u.name.module .unions) u).flatMap
        (Item.functions ofTrait (.ofIdent (.ofName u.name.name)) name) := by
    intro ofTrait name
    refine readAt_unions hof hf hu (fun _ _ _ _ => rfl) fun u' hne => ?_
    refine functions_unionItems_of_ne _ u' (fun heq => hne ?_) ofTrait name
    exact (List.singleton_inj.1 (congrArg Path.segments heq)).symm
  obtain ⟨⟨tag, htag, htag'⟩, ⟨serialize, hserialize, hserialize'⟩,
    ⟨deserialize, hdeserialize, hdeserialize'⟩, accept, haccept, haccept'⟩ :=
    functions_unionItems (groupScope c runtime u.name.module .unions) u
  obtain ⟨hlength, hwith⟩ := readAt_visitors hof hf hu
  have hcode : unionCode? (forestOf c runtime o) u =
      some ⟨(memberCases u).map (·.variant) ++ [⟨Ident.unknownVariant⟩], tag, serialize,
        deserialize, accept :: readAt (forestOf c runtime o) (filePath u.name.module .visitors)
          (Item.functions none ⟨false, [⟨"super"⟩, .ofName u.name.name], []⟩ "accept_with")⟩ := by
    simp only [unionCode?, hvariants, variantsOf_unionItems, hfunctions, htag, hserialize,
      hdeserialize, haccept]
  refine ⟨_, groupScope c runtime u.name.module .unions, hcode, rfl,
    ⟨rfl, htag', hserialize', hdeserialize', List.forall_mem_cons.2 ⟨haccept', hwith⟩⟩, ?_⟩
  rw [List.length_cons, hlength]
  cases o.visitors <;> rfl

end Emitted

/-- The matches of a union agree.  They pair its tags, in order, with its variants, one to one, and
both visitors have the same method for a variant.  So a member with a declared tag decodes, if its
value does, to a value with that tag, which is written under the tag and handed to both visitors by
one method; and a member with any other tag decodes to an unknown one, of which both visitors get
the tag and nothing else. -/
theorem union_matches_agree (doc : Document) (c : Contract) (h : Contract.ofDocument doc = .ok c)
    (o : Options) (f : Forest) (hf : emit c o = .ok f) (u : Union)
    (hu : .union u ∈ doc.declarations) :
    ∃ runtime code cases, Path.parse? o.runtime = some runtime ∧ unionCode? f u = some code ∧
      code.visits.length = (if o.visitors then 2 else 1) ∧ code.FollowsTable u cases ∧
      ∀ (α : Type) (decode : Ident → Json → Except Json.Fault α) (r : Json.Reader) (d : Json.Draft),
        let m := UnionCode.machine runtime decode
        (∀ e, Tagged.read r d = .error e →
          code.deserialize.Returns m [.decoder r d] (.failure e)) ∧
        ∀ member, Tagged.read r d = .ok member →
          (∀ x ∈ cases, x.tag = member.tag →
            (∀ e, decode x.variant member.value = .error e →
              code.deserialize.Returns m [.decoder r d] (.failure e)) ∧
            ∀ a, decode x.variant member.value = .ok a →
              code.deserialize.Returns m [.decoder r d]
                (.success (.variant x.variant (.content a))) ∧
              code.Handles m (.variant x.variant (.content a)) member.tag (.content a)
                x.method.text (.content a)) ∧
          (member.tag ∉ u.members.map (·.tag) →
            code.deserialize.Returns m [.decoder r d]
              (.success (.variant ⟨"Unknown"⟩ (.unknown member))) ∧
            code.Handles m (.variant ⟨"Unknown"⟩ (.unknown member)) member.tag
              (.json member.value) "visit_unknown" (.text member.tag)) := by
  have hof := Contract.of_ofDocument h
  have hmem : .union u ∈ c.registry.declarations := hof.perm.mem_iff.2 hu
  have hmembers : DistinctMembers Text.pascal (u.members.map (·.tag)) :=
    (hof.lawful.wellFormed _ hmem).members.2.1
  obtain ⟨runtime, hruntime, rfl, -⟩ := emit_ok_iff.1 hf
  obtain ⟨code, scope, hcode, rfl, hmatches, hlength⟩ := exists_unionCode hof hf hmem
  refine ⟨scope.runtime, code, memberCases u, hruntime, hcode, hlength,
    hmatches.followsTable hmembers, fun α decode r d => ⟨fun e hread => ?_, fun member hread =>
      ⟨fun x hx htag => ⟨fun e hvalue => ?_, fun a hvalue => ⟨?_, ?_⟩⟩, fun htag => ⟨?_, ?_⟩⟩⟩⟩
  · exact UnionCode.returns_failure hmatches decode hread
  · have hreturns := UnionCode.returns_member hmatches hmembers decode hx hread htag
    rwa [hvalue] at hreturns
  · have hreturns := UnionCode.returns_member hmatches hmembers decode hx hread htag
    rwa [hvalue] at hreturns
  · rw [← htag]
    exact UnionCode.handles_member hmatches hmembers decode hx (.content a)
  · exact UnionCode.returns_unknown hmatches decode hread htag
  · exact UnionCode.handles_unknown hmatches hmembers decode member

/-- The object of a member whose value is a text. -/
def taggedText (tag : String) : Json.Draft :=
  .ofJson (.obj [("type", .str tag), (tag, .str "x")])

/-- The tag `unknown` is declared, so that its variant and its method are kept apart from those of
unknown members; the tag `Unknown` is not. -/
theorem union_matches_agree_selfUnion :
    ∃ c f runtime code, ∃ x : MemberCase, Contract.ofDocument escapedNames = .ok c ∧
      emit c {} = .ok f ∧ .union selfUnion ∈ escapedNames.declarations ∧
      unionCode? f selfUnion = some code ∧ code.visits.length = 2 ∧ x.tag = "unknown" ∧
      x.variant ≠ ⟨"Unknown"⟩ ∧ x.method ≠ ⟨"visit_unknown"⟩ ∧
      let decode : Ident → Json → Except Json.Fault Json := fun _ v => .ok v
      let m := UnionCode.machine runtime decode
      (code.deserialize.Returns m [.decoder ⟨.value, 8⟩ (taggedText "unknown")]
          (.success (.variant x.variant (.content (.str "x")))) ∧
        code.Handles m (.variant x.variant (.content (.str "x"))) "unknown" (.content (.str "x"))
          x.method.text (.content (.str "x"))) ∧
      code.deserialize.Returns m [.decoder ⟨.value, 8⟩ (taggedText "Unknown")]
          (.success (.variant ⟨"Unknown"⟩ (.unknown ⟨"Unknown", .str "x"⟩))) ∧
        code.Handles m (.variant ⟨"Unknown"⟩ (.unknown ⟨"Unknown", .str "x"⟩)) "Unknown"
          (.json (.str "x")) "visit_unknown" (.text "Unknown") := by
  obtain ⟨c, f, hc, hf⟩ : ∃ c f, Contract.ofDocument escapedNames = .ok c ∧ emit c {} = .ok f :=
    exists_emit_ok isOk_escapedNames (by decide +kernel) (by decide +kernel)
  have hu : .union selfUnion ∈ escapedNames.declarations := List.mem_cons_self
  obtain ⟨runtime, code, cases, -, hcode, hlength, htable, hruns⟩ :=
    union_matches_agree escapedNames c hc {} f hf selfUnion hu
  have hdeclared : "unknown" ∈ cases.map (·.tag) := by
    rw [htable.tags]
    decide
  obtain ⟨x, hx, htag⟩ := List.mem_map.1 hdeclared
  have hvariant : x.variant ≠ ⟨"Unknown"⟩ :=
    fun heq => htable.unknown_notMem (heq ▸ List.mem_map_of_mem hx)
  have hknown := (hruns Json (fun _ v => .ok v) ⟨.value, 8⟩ (taggedText "unknown")).2
    ⟨"unknown", .str "x"⟩ rfl
  have hunknown := (hruns Json (fun _ v => .ok v) ⟨.value, 8⟩ (taggedText "Unknown")).2
    ⟨"Unknown", .str "x"⟩ rfl
  exact ⟨c, f, runtime, code, x, hc, hf, hu, hcode, hlength, htag, hvariant,
    htable.method_ne x hx, (hknown.1 x hx htag).2 _ rfl, hunknown.2 (by decide)⟩

end WireContract.Emit
