import WireContract.Proofs.TreeContents

/-!
# The bundle is the expanded tree

The files of a tree and its bundle are made by two recursions: one declares modules that lie in
other files, the other writes each module where it is declared.  Here the files are put together by
their tokens alone, and the result is the tokens of the bundle (`expandTree_eq_bundle`).

`expandPackage` takes the module file of a directory and puts in the place of each declaration the
module with its contents: a private module is a file beside the module file, a public one is the
directory of that name, expanded the same way.  It knows the tree by the paths of its files only.
A declaration without a file, or directories that nest without end, would leave it without a result.
-/

namespace WireContract.Emit

open Rust Schema

/-! ## Expansion -/

/-- The tokens of the file at a path. -/
def tokensAt? (files : List TreeFile) (path : List String) : Option Tokens :=
  (files.find? (·.path == path)).map (·.file.tokens)

/-- Replaces each declaration of a module by the module with its contents; `isPublic` says whether
the token before is `pub`. -/
def inlineModules (contents : Bool → String → Option Tokens) :
    (isPublic : Bool) → Tokens → Option Tokens
  | _, [] => some []
  | isPublic, .word "mod" :: .word name :: .punct ';' :: rest => do
    let inside ← contents isPublic name
    let rest ← inlineModules contents false rest
    return Tokens.word "mod" ++ Tokens.word name ++ Tokens.braces inside ++ rest
  | _, t :: rest => do
    let rest ← inlineModules contents (t == .word "pub") rest
    return t :: rest

/-- The tokens of the package in a directory, with its modules in the place of their declarations,
if directories nest less than `depth` deep in it. -/
def expandPackage (files : List TreeFile) : (depth : Nat) → (dir : List String) → Option Tokens
  | 0, _ => none
  | depth + 1, dir => do
    let declarations ← tokensAt? files (dir ++ [Forest.moduleFileName])
    let contents (isPublic : Bool) (name : String) : Option Tokens :=
      if isPublic then expandPackage files depth (dir ++ [name])
      else tokensAt? files (dir ++ [name ++ ".rs"])
    inlineModules contents false declarations

/-- The tokens of the whole tree.  Each directory has a module file, so that none nests deeper than
there are files. -/
def expandTree (files : List TreeFile) : Option Tokens := expandPackage files files.length []

/-! ## One token after another -/

section Inline

variable {contents : Bool → String → Option Tokens}

lemma inlineModules_cons {isPublic : Bool} {t : Token} (ht : t ≠ .word "mod") (rest : Tokens) :
    inlineModules contents isPublic (t :: rest) =
      (inlineModules contents (t == .word "pub") rest).map (t :: ·) := by
  rw [inlineModules]
  · cases inlineModules contents (t == .word "pub") rest <;> rfl
  · rintro _ _ rfl
    exact (ht rfl).elim

/-- Tokens that declare no module are kept. -/
lemma inlineModules_append {isPublic : Bool} {ts : Tokens} (hts : .word "mod" ∉ ts)
    (hlast : ts.getLast? ≠ some (.word "pub")) (hne : ts ≠ []) (rest : Tokens) :
    inlineModules contents isPublic (ts ++ rest) =
      (inlineModules contents false rest).map (ts ++ ·) := by
  induction ts generalizing isPublic with
  | nil => exact (hne rfl).elim
  | cons t ts ih =>
    rw [List.mem_cons, not_or] at hts
    rw [List.cons_append, inlineModules_cons (Ne.symm hts.1)]
    cases ts with
    | nil =>
      have hpub : (t == .word "pub") = false := by simpa using hlast
      rw [hpub]
      rfl
    | cons t' ts =>
      rw [ih hts.2 (by simpa using hlast) (by simp), Option.map_map]
      rfl

lemma inlineModules_module (isPublic : Bool) (name : String) (rest : Tokens) {inside : Tokens}
    (h : contents isPublic name = some inside) :
    inlineModules contents isPublic (.word "mod" :: .word name :: .punct ';' :: rest) =
      (inlineModules contents false rest).map
        (Tokens.word "mod" ++ Tokens.word name ++ Tokens.braces inside ++ ·) := by
  rw [inlineModules, h]
  cases inlineModules contents false rest <;> rfl

/-! ## One item after another -/

lemma tokensOfAll_append (items items' : List Item) :
    Item.tokensOfAll (items ++ items') = Item.tokensOfAll items ++ Item.tokensOfAll items' := by
  induction items with
  | nil => rfl
  | cons item items ih =>
    rw [List.cons_append, Item.tokensOfAll, Item.tokensOfAll, ih, List.append_assoc]

/-- A package is put in the place of its declaration. -/
lemma inlineModules_package {name : String} {items : List Item}
    (h : contents true name = some (Item.tokensOfAll items)) (rest : Tokens) :
    inlineModules contents false ((Item.module [] true ⟨name⟩).tokens ++ rest) =
      (inlineModules contents false rest).map
        ((Item.inlineModule [] true ⟨name⟩ [] items).tokens ++ ·) := by
  have hpub : Token.word "pub" ≠ .word "mod" := by decide
  have htokens : (Item.module [] true ⟨name⟩).tokens ++ rest =
      .word "pub" :: .word "mod" :: .word name :: .punct ';' :: rest := rfl
  rw [htokens, inlineModules_cons hpub, beq_self_eq_true, inlineModules_module true name rest h,
    Option.map_map]
  rfl

/-- The attributes of a group declare nothing. -/
lemma inlineModules_gate (g : Group) (rest : Tokens) :
    inlineModules contents false (g.gate.flatMap Attr.tokens ++ rest) =
      (inlineModules contents false rest).map (g.gate.flatMap Attr.tokens ++ ·) := by
  by_cases hgate : g.gate.flatMap Attr.tokens = []
  · simp [hgate]
  · refine inlineModules_append ?_ ?_ hgate rest
    · cases g <;> decide
    · cases g <;> decide

/-- A file is put in the place of its declaration, and its contents are made available as they
were. -/
lemma inlineModules_file {s : SourceFile}
    (h : contents false s.group.stem = some s.file.tokens) (rest : Tokens) :
    inlineModules contents false (Item.tokensOfAll
        [.module s.group.gate false (.ofName s.group.stem),
          .use s.group.gate true ⟨false, [⟨"self"⟩, .ofName s.group.stem], []⟩ .all] ++ rest) =
      (inlineModules contents false rest).map (Item.tokensOfAll
        [.inlineModule s.group.gate false (.ofName s.group.stem) s.file.inner s.file.items,
          .use s.group.gate true ⟨false, [⟨"self"⟩, .ofName s.group.stem], []⟩ .all] ++ ·) := by
  have hstem : (Ident.ofName s.group.stem).text = s.group.stem :=
    congrArg Ident.text (isPlain_stem s.group).1
  have hsemicolon : Tokens.marks ";" = [.punct ';'] := rfl
  generalize huse :
    Item.use s.group.gate true ⟨false, [⟨"self"⟩, .ofName s.group.stem], []⟩ .all = use
  have hkept : inlineModules contents false (use.tokens ++ rest) =
      (inlineModules contents false rest).map (use.tokens ++ ·) := by
    rw [← huse]
    refine inlineModules_append ?_ ?_ ?_ rest
    · cases s.group <;> decide
    · cases s.group <;> decide
    · cases s.group <;> decide
  have hdeclared :
      Item.tokensOfAll [.module s.group.gate false (.ofName s.group.stem), use] ++ rest =
      s.group.gate.flatMap Attr.tokens ++
        .word "mod" :: .word s.group.stem :: .punct ';' :: (use.tokens ++ rest) := by
    simp [Item.tokensOfAll, Item.tokens, visibilityTokens, Tokens.word, hstem, hsemicolon]
  rw [hdeclared, inlineModules_gate, inlineModules_module false _ _ h, hkept, Option.map_map,
    Option.map_map]
  congr 1
  funext tail
  simp [Item.tokensOfAll, Item.tokens, visibilityTokens, hstem, File.tokens]

/-- The files of a package are put in the places of their declarations. -/
lemma inlineModules_files {files : List SourceFile}
    (h : ∀ s ∈ files, contents false s.group.stem = some s.file.tokens) :
    inlineModules contents false (Item.tokensOfAll (files.flatMap fun s =>
        [.module s.group.gate false (.ofName s.group.stem),
          .use s.group.gate true ⟨false, [⟨"self"⟩, .ofName s.group.stem], []⟩ .all])) =
      some (Item.tokensOfAll (Forest.inlineFiles files)) := by
  induction files with
  | nil => rfl
  | cons s files ih =>
    rw [List.forall_mem_cons] at h
    rw [List.flatMap_cons, tokensOfAll_append, inlineModules_file h.1, ih h.2, Option.map_some]
    exact congrArg some (tokensOfAll_append _ _).symm

/-- Packages beside each other are put in the places of their declarations. -/
lemma inlineModules_packages {f : Forest} (hf : f.Sorted)
    (hplain : ∀ name ∈ f.names, Ident.ofName name = ⟨name⟩)
    (h : ∀ name own below, f.child? name = some (own, below) → contents true name =
      some (Item.tokensOfAll (below.nestedItems ++ Forest.inlineFiles own))) (rest : Tokens) :
    inlineModules contents false (Item.tokensOfAll
        (f.names.map fun name => .module [] true (.ofName name)) ++ rest) =
      (inlineModules contents false rest).map (Item.tokensOfAll f.nestedItems ++ ·) := by
  induction f with
  | nil => simp [Forest.names, Forest.nestedItems, Item.tokensOfAll]
  | cons name own below others _ ih =>
    rw [Forest.names, List.forall_mem_cons] at hplain
    have hfirst := h name own below (by rw [Forest.child?, if_pos rfl])
    have hothers := ih hf.2.2 hplain.2 fun name own below hchild =>
      h name own below (hf.child?_of_rest hchild)
    rw [Forest.names, List.map_cons, Item.tokensOfAll, List.append_assoc, hplain.1,
      inlineModules_package hfirst, hothers, Option.map_map, Forest.nestedItems, hplain.1,
      Item.tokensOfAll]
    congr 1
    funext tail
    rw [List.append_assoc]
    rfl

end Inline

/-! ## Depth -/

namespace Forest

/-- How deep packages nest. -/
def height : Forest → Nat
  | .nil => 0
  | .cons _ _ below rest => max (below.height + 1) rest.height

lemma height_lt_of_child? {f : Forest} {name : String} {package : List SourceFile × Forest}
    (h : f.child? name = some package) : package.2.height < f.height := by
  induction f with
  | nil => cases h
  | cons other files below rest _ ih =>
    rw [child?] at h
    rw [height]
    by_cases hname : name = other
    · rw [if_pos hname] at h
      obtain rfl := Option.some.inj h
      exact lt_max_of_lt_left (Nat.lt_succ_self _)
    · rw [if_neg hname] at h
      exact lt_max_of_lt_right (ih h)

/-- Each level of packages has a module file. -/
lemma height_le_length_filesUnder (f : Forest) (dir : List String) :
    f.height ≤ (f.filesUnder dir).length := by
  induction f generalizing dir with
  | nil => exact Nat.zero_le _
  | cons name files below rest ihbelow ihrest =>
    have hbelow := ihbelow (dir ++ [name])
    have hrest := ihrest dir
    simp only [height, filesUnder, List.cons_append, List.length_cons, List.length_append]
    omega

lemma height_lt_length_files (f : Forest) : f.height < f.files.length :=
  Nat.lt_succ_of_le (f.height_le_length_filesUnder [])

lemma package?_concat {f : Forest} {dir : List String} {package : List SourceFile × Forest}
    (h : f.package? dir = some package) (name : String) :
    f.package? (dir ++ [name]) = package.2.child? name := by
  rw [package?] at h
  rw [package?, descend_append, h, Option.bind_some, descend]
  cases package.2.child? name <;> rfl

end Forest

/-! ## The tree -/

lemma tokensAt?_of_mem {files : List TreeFile} (hnodup : (files.map (·.path)).Nodup) {t : TreeFile}
    (ht : t ∈ files) : tokensAt? files t.path = some t.file.tokens := by
  rw [tokensAt?]
  cases hfind : files.find? (·.path == t.path) with
  | none =>
    have hnone := List.find?_eq_none.1 hfind t ht
    simp at hnone
  | some t' =>
    have hpath : t'.path = t.path := by simpa using List.find?_some hfind
    rw [List.inj_on_of_nodup_map hnodup (List.mem_of_find?_eq_some hfind) ht hpath]
    rfl

/-- The package in a directory expands to its nested modules and its files. -/
lemma expandPackage_eq {f : Forest} (hf : f.Sorted) (hnodup : (f.files.map (·.path)).Nodup)
    (hplain : ∀ dir package, f.package? dir = some package →
      ∀ name ∈ package.2.names, Ident.ofName name = ⟨name⟩)
    {depth : Nat} {dir : List String} {package : List SourceFile × Forest}
    (hpackage : f.package? dir = some package) (hdepth : package.2.height < depth) :
    expandPackage f.files depth dir =
      some (Item.tokensOfAll (package.2.nestedItems ++ Forest.inlineFiles package.1)) := by
  -- the packages below nest less deep
  induction depth generalizing dir package with
  | zero => exact (Nat.not_lt_zero _ hdepth).elim
  | succ depth ih =>
    have hmodule := tokensAt?_of_mem hnodup
      (hf.mem_files_iff.2 ⟨dir, package, hpackage, Or.inl rfl⟩)
    have htokens : (Forest.packageFile package.1 package.2).tokens =
        Item.tokensOfAll (package.2.names.map fun name => .module [] true (.ofName name)) ++
          Item.tokensOfAll (package.1.flatMap fun s =>
            [.module s.group.gate false (.ofName s.group.stem),
              .use s.group.gate true ⟨false, [⟨"self"⟩, .ofName s.group.stem], []⟩ .all]) :=
      tokensOfAll_append _ _
    rw [Forest.moduleFileAt] at hmodule
    rw [expandPackage, hmodule]
    refine (congrArg _ htokens).trans ?_
    rw [inlineModules_packages (hf.package hpackage) (hplain dir package hpackage),
      inlineModules_files, Option.map_some, tokensOfAll_append]
    · intro s hs
      exact tokensAt?_of_mem hnodup
        (hf.mem_files_iff.2 ⟨dir, package, hpackage, Or.inr ⟨s, hs, rfl⟩⟩)
    · intro name own below hchild
      have hheight := Forest.height_lt_of_child? hchild
      exact ih ((Forest.package?_concat hpackage name).trans hchild) (by omega)

/-- In the tree of an accepted document, the tokens of the root's module file, with every private
module written out from its file and every public one from its directory, are the tokens of the
bundle. -/
theorem expandTree_eq_bundle (doc : Document) (c : Contract)
    (h : Contract.ofDocument doc = .ok c) (o : Options) (f : Forest) (hf : emit c o = .ok f) :
    expandTree f.files = some f.bundle.tokens := by
  have hof := Contract.of_ofDocument h
  have hnodup := nodup_files_of_emit hf
  obtain ⟨runtime, -, rfl, -⟩ := emit_ok_iff.1 hf
  have harranged := arranges_forestOf c runtime o
  have hplain : ∀ dir package, (forestOf c runtime o).package? dir = some package →
      ∀ name ∈ package.2.names, Ident.ofName name = ⟨name⟩ := by
    intro dir package hpackage name hname
    have hmodule : name ∈ (forestOf c runtime o).modulesAt dir := by
      rw [Forest.modulesAt, hpackage]
      exact List.mem_append_left _ hname
    exact (harranged.isPlain_of_mem (fun m hm => isPlain_segment hof hm) hmodule).1
  rw [expandTree, expandPackage_eq harranged.sorted hnodup hplain (Forest.package?_nil _)
    (Forest.height_lt_length_files _)]
  exact congrArg some (congrArg Item.tokensOfAll (List.append_nil _))

/-- A file and a directory beside each other, and a file of visitors behind its gate. -/
theorem expandTree_eq_bundle_mixedInks :
    ∃ c f, Contract.ofDocument mixedInks = .ok c ∧ emit c {} = .ok f ∧
      expandTree f.files = some f.bundle.tokens := by
  obtain ⟨c, f, hc, hf⟩ : ∃ c f, Contract.ofDocument mixedInks = .ok c ∧ emit c {} = .ok f :=
    exists_emit_ok isOk_mixedInks (by decide +kernel) (by decide +kernel)
  exact ⟨c, f, hc, hf, expandTree_eq_bundle mixedInks c hc {} f hf⟩

end WireContract.Emit
