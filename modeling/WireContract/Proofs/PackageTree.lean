import WireContract.Emit.Package
import WireContract.Proofs.Acceptance
import WireContract.Proofs.ReadBack

/-!
# The tree of packages, read by paths

`Forest.insert` gives the package at a path its files and adds the packages on the way to it.  Here
a tree is read the other way: `Forest.package?` finds the package at a path, and `Forest.filesAt?`
its files.  The packages beside each other come in strictly ascending order (`Forest.Sorted`), so
that there is one of each name and reading finds what was inserted (`filesAt?_insert`).

The tree of a contract is built module by module.  What holds of every tree on the way is
`Forest.Arranges`: the files of each module are at its path, the packages above a module are there
and empty unless they are modules themselves, and there is no other package.  Each insertion keeps
it (`Arranges.insert`), so the whole tree has it (`arranges_forestOf`).

The files of a tree are its module files and the files of its packages (`mem_files_iff`).  It has no
collision exactly if no module is at the path of a file or below it (`collision?_eq_none_iff`).
-/

namespace WireContract.Text

/-! ## Paths of modules -/

lemma splitOn_ne_nil (sep : Char) (cs : List Char) : splitOn sep cs ≠ [] := by
  induction cs with
  | nil => simp [splitOn]
  | cons c cs ih =>
    obtain ⟨piece, pieces, hpieces⟩ := List.exists_cons_of_ne_nil ih
    rw [splitOn, hpieces]
    by_cases hc : (c == sep) = true
    · simp [hc]
    · simp [hc]

/-- The pieces of a text, with the separator between them, are the text. -/
lemma intercalate_splitOn (sep : Char) (cs : List Char) :
    List.intercalate [sep] (splitOn sep cs) = cs := by
  induction cs with
  | nil => rfl
  | cons c cs ih =>
    obtain ⟨piece, pieces, hpieces⟩ := List.exists_cons_of_ne_nil (splitOn_ne_nil sep cs)
    rw [hpieces] at ih
    rw [splitOn, hpieces]
    by_cases hc : (c == sep) = true
    · obtain rfl : c = sep := by simpa using hc
      simp only [beq_self_eq_true, if_true, List.intercalate_cons_cons, List.nil_append, ih,
        List.singleton_append]
    · simp only [hc]
      cases pieces with
      | nil => simpa using ih
      | cons next pieces => simpa [List.intercalate_cons_cons] using ih

lemma split_ne_nil (sep : Char) (s : String) : split sep s ≠ [] := by
  simpa [split] using splitOn_ne_nil sep s.toList

/-- A text is known by its pieces. -/
lemma split_injective (sep : Char) : Function.Injective (split sep) := by
  intro s t h
  have hlists : splitOn sep s.toList = splitOn sep t.toList := by
    refine List.map_injective_iff.2 (fun a b hab => ?_) h
    simpa using congrArg String.toList hab
  have hchars : s.toList = t.toList := by
    rw [← intercalate_splitOn sep s.toList, hlists, intercalate_splitOn]
  exact String.toList_inj.1 hchars

end WireContract.Text

namespace WireContract.Emit.Forest

/-! ## Packages by path -/

/-- The package with a name among packages beside each other: its files and the packages below. -/
def child? (name : String) : Forest → Option (List SourceFile × Forest)
  | .nil => none
  | .cons other files below rest =>
    if name = other then some (files, below) else rest.child? name

/-- The package at a path below a package. -/
def descend : List String → List SourceFile × Forest → Option (List SourceFile × Forest)
  | [], package => some package
  | name :: path, package => (package.2.child? name).bind (descend path)

/-- The package at a path.  The root is a package without files. -/
def package? (f : Forest) (path : List String) : Option (List SourceFile × Forest) :=
  descend path ([], f)

/-- The files of the package at a path. -/
def filesAt? (f : Forest) (path : List String) : Option (List SourceFile) :=
  (f.package? path).map Prod.fst

/-- The packages beside each other, at every depth, are in strictly ascending order of name. -/
def Sorted : Forest → Prop
  | .nil => True
  | .cons name _ below rest => (∀ other ∈ rest.names, name < other) ∧ below.Sorted ∧ rest.Sorted

@[simp] lemma package?_nil (f : Forest) : f.package? [] = some ([], f) := rfl

lemma package?_cons (f : Forest) (name : String) (path : List String) :
    f.package? (name :: path) = (f.child? name).bind (descend path) := rfl

lemma descend_append (path path' : List String) (package : List SourceFile × Forest) :
    descend (path ++ path') package = (descend path package).bind (descend path') := by
  induction path generalizing package with
  | nil => rfl
  | cons name path ih =>
    rw [List.cons_append, descend, descend]
    cases package.2.child? name with
    | none => rfl
    | some child => exact ih child

lemma child?_eq_none_iff {f : Forest} {name : String} : f.child? name = none ↔ name ∉ f.names := by
  induction f with
  | nil => simp [child?, names]
  | cons other files below rest _ ih =>
    rw [child?, names, List.mem_cons, not_or]
    by_cases h : name = other
    · simp [h]
    · simp [h, ih]

lemma isSome_child?_iff {f : Forest} {name : String} :
    (f.child? name).isSome = true ↔ name ∈ f.names := by
  rw [Option.isSome_iff_ne_none, ne_eq, child?_eq_none_iff, not_not]

/-- The packages below a package of a sorted tree are sorted. -/
lemma Sorted.child {f : Forest} (hf : f.Sorted) {name : String}
    {package : List SourceFile × Forest} (h : f.child? name = some package) :
    package.2.Sorted := by
  induction f with
  | nil => cases h
  | cons other files below rest _ ih =>
    obtain ⟨-, hbelow, hrest⟩ := hf
    rw [child?] at h
    by_cases hname : name = other
    · rw [if_pos hname] at h
      obtain rfl := Option.some.inj h
      exact hbelow
    · rw [if_neg hname] at h
      exact ih hrest h

/-! ## Changing one package -/

section Alter

variable {change : List SourceFile → Forest → List SourceFile × Forest} {f : Forest}

lemma mem_names_alter {name x : String} :
    x ∈ (f.alter name change).names ↔ x = name ∨ x ∈ f.names := by
  induction f with
  | nil => simp [alter, names]
  | cons other files below rest _ ih =>
    rw [alter]
    by_cases heq : name = other
    · subst heq
      simp [names]
    · by_cases hlt : name < other
      · simp [heq, hlt, names]
      · simp only [beq_iff_eq, heq, hlt, if_false, names, List.mem_cons, ih]
        exact or_left_comm

lemma Sorted.alter (hf : f.Sorted) (name : String)
    (hchange : ∀ files below, below.Sorted → (change files below).2.Sorted) :
    (f.alter name change).Sorted := by
  induction f with
  | nil =>
    have hnone : ∀ other ∈ nil.names, name < other := fun _ h => (List.not_mem_nil h).elim
    exact ⟨hnone, hchange [] .nil trivial, trivial⟩
  | cons other files below rest _ ih =>
    obtain ⟨hhead, hbelow, hrest⟩ := hf
    rw [Forest.alter]
    by_cases heq : name = other
    · rw [if_pos (by simpa using heq)]
      exact ⟨hhead, hchange files below hbelow, hrest⟩
    · rw [if_neg (by simpa using heq)]
      by_cases hlt : name < other
      · rw [if_pos hlt]
        refine ⟨fun x hx => ?_, hchange [] .nil trivial, hhead, hbelow, hrest⟩
        rcases List.mem_cons.1 hx with rfl | hx
        · exact hlt
        · exact hlt.trans (hhead x hx)
      · rw [if_neg hlt]
        have hgt : other < name := lt_of_le_of_ne (not_lt.1 hlt) (Ne.symm heq)
        refine ⟨fun x hx => ?_, hbelow, ih hrest⟩
        rcases mem_names_alter.1 hx with rfl | hx
        · exact hgt
        · exact hhead x hx

/-- The changed package is the one that was there, or an empty one, after the change; the others
are as before. -/
lemma Sorted.child?_alter (hf : f.Sorted) (name x : String) :
    (f.alter name change).child? x =
      if x = name then
        some (change ((f.child? name).getD ([], .nil)).1 ((f.child? name).getD ([], .nil)).2)
      else f.child? x := by
  induction f with
  | nil => simp [Forest.alter, child?]
  | cons other files below rest _ ih =>
    obtain ⟨hhead, -, hrest⟩ := hf
    rw [Forest.alter]
    by_cases heq : name = other
    · subst heq
      rw [if_pos (by simp)]
      by_cases hx : x = name
      · simp [child?, hx]
      · simp [child?, hx]
    · rw [if_neg (by simpa using heq)]
      by_cases hlt : name < other
      · rw [if_pos hlt]
        -- all names of the tree come after `name`, so no package has it
        have habsent : rest.child? name = none :=
          child?_eq_none_iff.2 fun hmem => lt_asymm hlt (hhead name hmem)
        by_cases hx : x = name
        · simp [child?, hx, heq, habsent]
        · simp [child?, hx]
      · rw [if_neg hlt, child?, ih hrest]
        by_cases hx : x = name
        · simp [child?, hx, heq]
        · simp [child?, hx]

end Alter

/-! ## Inserting files at a path -/

lemma Sorted.insert {f : Forest} (hf : f.Sorted) (files : List SourceFile) (path : List String) :
    (f.insert files path).Sorted := by
  induction path generalizing f with
  | nil => exact hf
  | cons name path ih =>
    cases path with
    | nil => exact hf.alter name fun _ _ hbelow => hbelow
    | cons next path => exact hf.alter name fun _ _ hbelow => ih hbelow

/-- The package with a name, or an empty one where it is missing. -/
def childOrEmpty (f : Forest) (name : String) : List SourceFile × Forest :=
  (f.child? name).getD ([], .nil)

lemma getD_filesAt?_singleton (f : Forest) (name : String) :
    (f.filesAt? [name]).getD [] = (f.childOrEmpty name).1 := by
  rw [filesAt?, package?_cons, childOrEmpty]
  cases f.child? name with
  | none => rfl
  | some child => rfl

lemma filesAt?_cons_cons (f : Forest) (name next : String) (path : List String) :
    f.filesAt? (name :: next :: path) = (f.childOrEmpty name).2.filesAt? (next :: path) := by
  rw [filesAt?, package?_cons, childOrEmpty]
  cases f.child? name with
  | none => rfl
  | some child => rfl

/-- After a change of one package, a path into it reads the changed package, and any other path
reads as before. -/
lemma Sorted.filesAt?_alter {f : Forest} (hf : f.Sorted)
    {change : List SourceFile → Forest → List SourceFile × Forest} (name x : String)
    (path : List String) :
    (f.alter name change).filesAt? (x :: path) =
      if x = name then
        (descend path (change (f.childOrEmpty name).1 (f.childOrEmpty name).2)).map Prod.fst
      else f.filesAt? (x :: path) := by
  rw [filesAt?, package?_cons, hf.child?_alter]
  by_cases hx : x = name
  · rw [if_pos hx, if_pos hx]
    rfl
  · rw [if_neg hx, if_neg hx]
    rfl

lemma Sorted.childOrEmpty {f : Forest} (hf : f.Sorted) (name : String) :
    (f.childOrEmpty name).2.Sorted := by
  rw [Forest.childOrEmpty]
  cases h : f.child? name with
  | none => trivial
  | some child => exact hf.child h

/-- After an insertion the package at the path has the files, the packages on the way are there,
with the files that they had, and all else is as before. -/
lemma Sorted.filesAt?_insert {f : Forest} (hf : f.Sorted) (files : List SourceFile)
    {path : List String} (hpath : path ≠ []) (q : List String) :
    (f.insert files path).filesAt? q =
      if q = path then some files
      else if q <+: path then some ((f.filesAt? q).getD [])
      else f.filesAt? q := by
  induction path generalizing f q with
  | nil => exact (hpath rfl).elim
  | cons name path ih =>
    cases q with
    | nil => simp [filesAt?]
    | cons x q =>
      by_cases hx : x = name
      · subst hx
        cases path with
        | nil =>
          rw [Forest.insert, hf.filesAt?_alter, if_pos rfl]
          cases q with
          | nil => simp [descend]
          | cons next q =>
            have hstart : ¬ x :: next :: q <+: [x] := by simp
            rw [if_neg (by simp), if_neg hstart, filesAt?_cons_cons]
            rfl
        | cons step path =>
          rw [Forest.insert, hf.filesAt?_alter, if_pos rfl]
          cases q with
          | nil => simp [descend, getD_filesAt?_singleton]
          | cons next q =>
            have hbelow := ih (hf.childOrEmpty x) (List.cons_ne_nil step path) (next :: q)
            simp only [filesAt?_cons_cons, List.cons_prefix_cons, List.cons.injEq, true_and]
              at hbelow ⊢
            exact hbelow
      · have hstart : ¬ (x :: q <+: name :: path) := fun h => hx (List.cons_prefix_cons.1 h).1
        have hne : x :: q ≠ name :: path := fun h => hx (List.cons.inj h).1
        rw [if_neg hne, if_neg hstart]
        cases path with
        | nil => rw [Forest.insert, hf.filesAt?_alter, if_neg hx]
        | cons step path => rw [Forest.insert, hf.filesAt?_alter, if_neg hx]

/-! ## The tree of modules -/

/-- The tree has the files of each module at the path of the module, empty packages on the way to
modules, and nothing else. -/
structure Arranges (files : String → List SourceFile) (modules : List String) (f : Forest) :
    Prop where
  sorted : f.Sorted
  own : ∀ m ∈ modules, f.filesAt? (Text.split '.' m) = some (files m)
  between : ∀ path ≠ [], (∀ m ∈ modules, Text.split '.' m ≠ path) →
    (∃ m ∈ modules, path <+: Text.split '.' m) → f.filesAt? path = some []
  outside : ∀ path ≠ [], (∀ m ∈ modules, ¬ path <+: Text.split '.' m) → f.filesAt? path = none

namespace Arranges

variable {files : String → List SourceFile} {modules : List String} {f : Forest}

lemma nil (files : String → List SourceFile) : Arranges files [] .nil := by
  refine ⟨trivial, ?_, ?_, ?_⟩
  · exact fun m hm => (List.not_mem_nil hm).elim
  · rintro path - - ⟨m, hm, -⟩
    exact (List.not_mem_nil hm).elim
  · intro path hpath _
    obtain ⟨name, path, rfl⟩ := List.exists_cons_of_ne_nil hpath
    rfl

/-- One more module is put in its place, and the others stay where they are. -/
lemma insert (hf : Arranges files modules f) (m : String) :
    Arranges files (modules ++ [m]) (f.insert (files m) (Text.split '.' m)) := by
  have hread := hf.sorted.filesAt?_insert (files m) (Text.split_ne_nil '.' m)
  refine ⟨hf.sorted.insert _ _, fun m' hm' => ?_, fun path hpath hown hway => ?_,
    fun path hpath hoff => ?_⟩
  · rw [hread]
    by_cases heq : Text.split '.' m' = Text.split '.' m
    · rw [if_pos heq, Text.split_injective '.' heq]
    · have hmem : m' ∈ modules := by
        rcases List.mem_append.1 hm' with hmem | hlast
        · exact hmem
        · exact (heq (congrArg _ (List.mem_singleton.1 hlast))).elim
      simp [heq, hf.own m' hmem]
  · have hne : path ≠ Text.split '.' m := fun h => hown m (by simp) h.symm
    have hold : ∀ m' ∈ modules, Text.split '.' m' ≠ path :=
      fun m' hm' => hown m' (List.mem_append_left _ hm')
    rw [hread, if_neg hne]
    by_cases hstart : path <+: Text.split '.' m
    · rw [if_pos hstart]
      -- the package was there and empty, or it is new
      by_cases hthere : ∃ m' ∈ modules, path <+: Text.split '.' m'
      · rw [hf.between path hpath hold hthere, Option.getD_some]
      · have hnone : ∀ m' ∈ modules, ¬ path <+: Text.split '.' m' :=
          fun m' hm' h => hthere ⟨m', hm', h⟩
        rw [hf.outside path hpath hnone, Option.getD_none]
    · rw [if_neg hstart]
      obtain ⟨m', hm', hstart'⟩ := hway
      rcases List.mem_append.1 hm' with hmem | hlast
      · exact hf.between path hpath hold ⟨m', hmem, hstart'⟩
      · rw [List.mem_singleton.1 hlast] at hstart'
        exact (hstart hstart').elim
  · have hstart : ¬ path <+: Text.split '.' m := hoff m (by simp)
    have hne : path ≠ Text.split '.' m := fun h => hstart (h ▸ List.prefix_refl _)
    rw [hread, if_neg hne, if_neg hstart]
    exact hf.outside path hpath fun m' hm' => hoff m' (List.mem_append_left _ hm')

/-- Inserting module by module arranges all of them. -/
lemma foldl (hf : Arranges files modules f) (more : List String) :
    Arranges files (modules ++ more)
      (more.foldl (fun f m => f.insert (files m) (Text.split '.' m)) f) := by
  induction more generalizing modules f with
  | nil => simpa using hf
  | cons m more ih =>
    have hstep := ih (hf.insert m)
    rwa [List.append_assoc, List.singleton_append] at hstep

/-- A package of the tree is a module with its files, or an empty package on the way to one. -/
lemma eq_some_cases (hf : Arranges files modules f) {path : List String} (hpath : path ≠ [])
    {own : List SourceFile} (h : f.filesAt? path = some own) :
    (∃ m ∈ modules, Text.split '.' m = path ∧ own = files m) ∨
      own = [] ∧ ∃ m ∈ modules, path <+: Text.split '.' m := by
  by_cases hown : ∃ m ∈ modules, Text.split '.' m = path
  · obtain ⟨m, hm, rfl⟩ := hown
    rw [hf.own m hm] at h
    exact Or.inl ⟨m, hm, rfl, (Option.some.inj h).symm⟩
  · have hold : ∀ m ∈ modules, Text.split '.' m ≠ path := fun m hm heq => hown ⟨m, hm, heq⟩
    by_cases hway : ∃ m ∈ modules, path <+: Text.split '.' m
    · rw [hf.between path hpath hold hway] at h
      exact Or.inr ⟨(Option.some.inj h).symm, hway⟩
    · rw [hf.outside path hpath fun m hm hstart => hway ⟨m, hm, hstart⟩] at h
      cases h

/-- Every package of the tree is on the way to a module. -/
lemma exists_module_of_filesAt? (hf : Arranges files modules f) {path : List String}
    (hpath : path ≠ []) {own : List SourceFile} (h : f.filesAt? path = some own) :
    ∃ m ∈ modules, path <+: Text.split '.' m := by
  rcases hf.eq_some_cases hpath h with ⟨m, hm, rfl, -⟩ | ⟨-, hway⟩
  · exact ⟨m, hm, List.prefix_refl _⟩
  · exact hway

/-- A package of the tree that has a file is that of a module. -/
lemma exists_module_of_mem (hf : Arranges files modules f) {path : List String}
    {package : List SourceFile × Forest} (hpackage : f.package? path = some package)
    {s : SourceFile} (hs : s ∈ package.1) :
    ∃ m ∈ modules, Text.split '.' m = path ∧ s ∈ files m := by
  have hfiles : f.filesAt? path = some package.1 := by rw [filesAt?, hpackage, Option.map_some]
  by_cases hpath : path = []
  · rw [hpath] at hpackage
    obtain rfl := Option.some.inj hpackage
    exact (List.not_mem_nil hs).elim
  · rcases hf.eq_some_cases hpath hfiles with ⟨m, hm, hsplit, hown⟩ | ⟨hempty, -⟩
    · exact ⟨m, hm, hsplit, hown ▸ hs⟩
    · rw [hempty] at hs
      exact (List.not_mem_nil hs).elim

/-- There is a package at every path on the way to a module. -/
lemma exists_filesAt? (hf : Arranges files modules f) {path : List String} {m : String}
    (hm : m ∈ modules) (hstart : path <+: Text.split '.' m) :
    ∃ own, f.filesAt? path = some own := by
  by_cases hpath : path = []
  · exact ⟨[], by rw [hpath]; rfl⟩
  · by_cases hown : ∃ m' ∈ modules, Text.split '.' m' = path
    · obtain ⟨m', hm', rfl⟩ := hown
      exact ⟨_, hf.own m' hm'⟩
    · have hold : ∀ m' ∈ modules, Text.split '.' m' ≠ path :=
        fun m' hm' heq => hown ⟨m', hm', heq⟩
      exact ⟨[], hf.between path hpath hold ⟨m, hm, hstart⟩⟩

end Arranges

/-! ## The files of a tree -/

/-- The file that declares the package at a path. -/
def moduleFileAt (path : List String) (package : List SourceFile × Forest) : TreeFile :=
  ⟨path ++ [moduleFileName], [], packageFile package.1 package.2⟩

end Forest

/-- A file of the package at a path. -/
def SourceFile.inPackage (path : List String) (s : SourceFile) : TreeFile :=
  ⟨path ++ [s.group.stem ++ ".rs"], s.group.comments, s.file⟩

namespace Forest

lemma Sorted.child?_of_rest {name : String} {files : List SourceFile} {below rest : Forest}
    (hf : (Forest.cons name files below rest).Sorted) {x : String}
    {package : List SourceFile × Forest} (h : rest.child? x = some package) :
    (Forest.cons name files below rest).child? x = some package := by
  have hmem : x ∈ rest.names := isSome_child?_iff.1 (by rw [h]; rfl)
  have hne : x ≠ name := (hf.1 x hmem).ne'
  rw [child?, if_neg hne, h]

/-- A package among packages beside each other is the first, below the first, or among the rest. -/
lemma Sorted.package?_cons_iff {name : String} {files : List SourceFile} {below rest : Forest}
    (hf : (Forest.cons name files below rest).Sorted) {path : List String} (hpath : path ≠ [])
    {package : List SourceFile × Forest} :
    (Forest.cons name files below rest).package? path = some package ↔
      (path = [name] ∧ package = (files, below)) ∨
      (∃ path' ≠ [], path = name :: path' ∧ below.package? path' = some package) ∨
      rest.package? path = some package := by
  obtain ⟨x, path, rfl⟩ := List.exists_cons_of_ne_nil hpath
  rw [package?_cons]
  constructor
  · intro hpackage
    rw [child?] at hpackage
    by_cases hx : x = name
    · subst hx
      rw [if_pos rfl, Option.bind_some] at hpackage
      cases path with
      | nil => exact Or.inl ⟨rfl, (Option.some.inj hpackage).symm⟩
      | cons next path => exact Or.inr (Or.inl ⟨next :: path, by simp, rfl, hpackage⟩)
    · rw [if_neg hx] at hpackage
      exact Or.inr (Or.inr hpackage)
  · rintro (⟨hx, rfl⟩ | ⟨path', hpath', hx, hpackage⟩ | hpackage)
    · obtain ⟨rfl, rfl⟩ := List.cons.inj hx
      rw [child?, if_pos rfl]
      rfl
    · obtain ⟨rfl, rfl⟩ := List.cons.inj hx
      obtain ⟨next, path, rfl⟩ := List.exists_cons_of_ne_nil hpath'
      rw [child?, if_pos rfl]
      exact hpackage
    · obtain ⟨child, hchild, hdescend⟩ := Option.bind_eq_some_iff.1 hpackage
      rw [hf.child?_of_rest hchild]
      exact hdescend

/-- The files below a directory are those of the packages at all paths. -/
lemma Sorted.mem_filesUnder_iff {f : Forest} (hf : f.Sorted) {dir : List String} {t : TreeFile} :
    t ∈ f.filesUnder dir ↔ ∃ path ≠ [], ∃ package, f.package? path = some package ∧
      (t = moduleFileAt (dir ++ path) package ∨
        ∃ s ∈ package.1, t = s.inPackage (dir ++ path)) := by
  induction f generalizing dir with
  | nil =>
    simp only [filesUnder, List.not_mem_nil, false_iff]
    rintro ⟨path, hpath, package, hpackage, -⟩
    obtain ⟨name, path, rfl⟩ := List.exists_cons_of_ne_nil hpath
    cases hpackage
  | cons name files below rest ihbelow ihrest =>
    obtain ⟨-, hbelow, hrest⟩ := id hf
    simp only [filesUnder, List.cons_append, List.mem_cons, List.mem_append, List.mem_map,
      ihbelow hbelow, ihrest hrest]
    constructor
    · rintro (rfl | (⟨s, hs, rfl⟩ | ⟨path, hpath, package, hpackage, ht⟩) |
        ⟨path, hpath, package, hpackage, ht⟩)
      · exact ⟨[name], by simp, (files, below),
          (hf.package?_cons_iff (by simp)).2 (Or.inl ⟨rfl, rfl⟩), Or.inl rfl⟩
      · exact ⟨[name], by simp, (files, below),
          (hf.package?_cons_iff (by simp)).2 (Or.inl ⟨rfl, rfl⟩), Or.inr ⟨s, hs, rfl⟩⟩
      · exact ⟨name :: path, by simp, package,
          (hf.package?_cons_iff (by simp)).2 (Or.inr (Or.inl ⟨path, hpath, rfl, hpackage⟩)),
          by simpa using ht⟩
      · exact ⟨path, hpath, package,
          (hf.package?_cons_iff hpath).2 (Or.inr (Or.inr hpackage)), ht⟩
    · rintro ⟨path, hpath, package, hpackage, ht⟩
      rcases (hf.package?_cons_iff hpath).1 hpackage with
        ⟨rfl, rfl⟩ | ⟨path', hpath', rfl, hunder'⟩ | hrest'
      · rcases ht with rfl | ⟨s, hs, rfl⟩
        · exact Or.inl rfl
        · exact Or.inr (Or.inl (Or.inl ⟨s, hs, rfl⟩))
      · exact Or.inr (Or.inl (Or.inr ⟨path', hpath', package, hunder', by simpa using ht⟩))
      · exact Or.inr (Or.inr ⟨path, hpath, package, hrest', ht⟩)

/-- A tree has no collision exactly if no package has a file with the name of a package below it. -/
lemma Sorted.collision?_eq_none_iff {f : Forest} (hf : f.Sorted) {way : String} :
    f.collision? way = none ↔ ∀ path ≠ [], ∀ package, f.package? path = some package →
      ∀ s ∈ package.1, s.group.stem ∉ package.2.names := by
  induction f generalizing way with
  | nil =>
    simp only [collision?, true_iff]
    intro path hpath package hpackage
    obtain ⟨name, path, rfl⟩ := List.exists_cons_of_ne_nil hpath
    cases hpackage
  | cons name files below rest ihbelow ihrest =>
    obtain ⟨-, hbelow, hrest⟩ := id hf
    simp only [collision?, Option.or_eq_none_iff, ihbelow hbelow, ihrest hrest]
    rw [List.findSome?_eq_none_iff]
    simp only [Option.map_eq_none_iff, List.find?_eq_none, beq_iff_eq]
    constructor
    · rintro ⟨hown, hunder, hbeside⟩ path hpath package hpackage
      rcases (hf.package?_cons_iff hpath).1 hpackage with
        ⟨rfl, rfl⟩ | ⟨path', hpath', rfl, hunder'⟩ | hrest'
      · exact fun s hs hmem => hown _ hmem s hs rfl
      · exact hunder path' hpath' package hunder'
      · exact hbeside path hpath package hrest'
    · intro h
      refine ⟨fun child hchild s hs hstem => ?_, fun path hpath package hpackage => ?_,
        fun path hpath package hpackage => ?_⟩
      · refine h [name] (by simp) (files, below)
          ((hf.package?_cons_iff (by simp)).2 (Or.inl ⟨rfl, rfl⟩)) s hs ?_
        rwa [hstem]
      · exact h (name :: path) (by simp) package
          ((hf.package?_cons_iff (by simp)).2 (Or.inr (Or.inl ⟨path, hpath, rfl, hpackage⟩)))
      · exact h path hpath package ((hf.package?_cons_iff hpath).2 (Or.inr (Or.inr hpackage)))

/-- The files of a tree: the module file of each package, the root among them, and the files of
each package. -/
theorem Sorted.mem_files_iff {f : Forest} (hf : f.Sorted) {t : TreeFile} :
    t ∈ f.files ↔ ∃ path package, f.package? path = some package ∧
      (t = moduleFileAt path package ∨ ∃ s ∈ package.1, t = s.inPackage path) := by
  rw [files, List.mem_cons, hf.mem_filesUnder_iff]
  constructor
  · rintro (rfl | ⟨path, -, package, hpackage, ht⟩)
    · exact ⟨[], ([], f), rfl, Or.inl rfl⟩
    · exact ⟨path, package, hpackage, ht⟩
  · rintro ⟨path, package, hpackage, ht⟩
    cases path with
    | nil =>
      obtain rfl := Option.some.inj hpackage
      rcases ht with rfl | ⟨s, hs, -⟩
      · exact Or.inl rfl
      · exact (List.not_mem_nil hs).elim
    | cons name path => exact Or.inr ⟨name :: path, by simp, package, hpackage, ht⟩

/-- A package has a package below it exactly if there is one at the longer path. -/
lemma mem_names_iff_exists_filesAt? {f : Forest} {path : List String}
    {package : List SourceFile × Forest} (h : f.package? path = some package) {name : String} :
    name ∈ package.2.names ↔ ∃ own, f.filesAt? (path ++ [name]) = some own := by
  have hread : f.filesAt? (path ++ [name]) = (package.2.child? name).map Prod.fst := by
    rw [package?] at h
    rw [filesAt?, package?, descend_append, h, Option.bind_some, descend]
    cases package.2.child? name <;> rfl
  rw [← isSome_child?_iff, hread, ← Option.isSome_iff_exists, Option.isSome_map]

/-- A tree has no collision exactly if no module is at the path of a file of another, or below
it. -/
theorem Arranges.collision?_eq_none_iff {files : String → List SourceFile} {modules : List String}
    {f : Forest} (hf : f.Arranges files modules) {way : String} :
    f.collision? way = none ↔ ∀ m ∈ modules, ∀ s ∈ files m, ∀ m' ∈ modules,
      ¬ Text.split '.' m ++ [s.group.stem] <+: Text.split '.' m' := by
  rw [hf.sorted.collision?_eq_none_iff]
  constructor
  · intro h m hm s hs m' hm' hstart
    obtain ⟨package, hpackage, hfiles⟩ := Option.map_eq_some_iff.1 (hf.own m hm)
    refine h (Text.split '.' m) (Text.split_ne_nil '.' m) package hpackage s (hfiles ▸ hs) ?_
    exact (mem_names_iff_exists_filesAt? hpackage).2 (hf.exists_filesAt? hm' hstart)
  · intro h path hpath package hpackage s hs hmem
    obtain ⟨own, hown⟩ := (mem_names_iff_exists_filesAt? hpackage).1 hmem
    obtain ⟨m', hm', hstart⟩ := hf.exists_module_of_filesAt? (by simp) hown
    obtain ⟨m, hm, rfl, hs'⟩ := hf.exists_module_of_mem hpackage hs
    exact h m hm s hs' m' hm' hstart

end Forest

/-! ## The tree of a contract -/

open Schema

/-- The modules of a contract are those of its declarations. -/
lemma mem_modules_iff {reg : Registry} {m : String} :
    m ∈ reg.modules ↔ ∃ d ∈ reg.declarations, d.name.module = m := by
  rw [Registry.modules, List.mem_eraseDups, List.mem_map]

/-- The files of a module: one for each emitted group that has a declaration in it. -/
lemma mem_moduleFiles_iff {c : Contract} {runtime : Rust.Path} {o : Options} {module : String}
    {s : SourceFile} :
    s ∈ moduleFiles c runtime o module ↔ s.group ∈ o.groups ∧
      (c.registry.moduleDeclarations module).filter s.group.has ≠ [] ∧
      s.file = fileOf c runtime o.server module s.group
        ((c.registry.moduleDeclarations module).filter s.group.has) := by
  simp only [moduleFiles, List.mem_filterMap, List.isEmpty_iff]
  constructor
  · rintro ⟨g, hg, hfile⟩
    by_cases hempty : (c.registry.moduleDeclarations module).filter g.has = []
    · rw [if_pos hempty] at hfile
      cases hfile
    · rw [if_neg hempty] at hfile
      obtain rfl := Option.some.inj hfile
      exact ⟨hg, hempty, rfl⟩
  · rintro ⟨hg, hempty, hfile⟩
    refine ⟨s.group, hg, ?_⟩
    rw [if_neg hempty, ← hfile]

/-- A module with a file is a module of the contract. -/
lemma mem_modules_of_mem_moduleFiles {c : Contract} {runtime : Rust.Path} {o : Options}
    {module : String} {s : SourceFile} (hs : s ∈ moduleFiles c runtime o module) :
    module ∈ c.registry.modules := by
  obtain ⟨-, hne, -⟩ := mem_moduleFiles_iff.1 hs
  obtain ⟨d, hd⟩ := List.exists_mem_of_ne_nil _ hne
  obtain ⟨hd, hmodule⟩ := List.mem_filter.1 (List.mem_of_mem_filter hd)
  exact mem_modules_iff.2 ⟨d, hd, by simpa using hmodule⟩

/-- The tree of a contract has the files of each module at its path. -/
theorem arranges_forestOf (c : Contract) (runtime : Rust.Path) (o : Options) :
    (forestOf c runtime o).Arranges (moduleFiles c runtime o) c.registry.modules := by
  simpa [forestOf] using
    (Forest.Arranges.nil (moduleFiles c runtime o)).foldl c.registry.modules

/-- What is emitted is the tree of the contract; no package in it has the name of a file beside it,
and all of its files can be read back. -/
lemma emitAgainst_ok_iff {c : Contract} {runtime : Rust.Path} {o : Options} {f : Forest} :
    emitAgainst c runtime o = .ok f ↔
      f = forestOf c runtime o ∧ f.collision? "" = none ∧ unread? c runtime o = none := by
  unfold emitAgainst
  split
  · rename_i context hunread
    simp [hunread]
  · rename_i hread
    simp only [hread, and_true]
    split
    · rename_i module file hcollision
      simp only [reduceCtorEq, false_iff, not_and]
      rintro rfl
      simp [hcollision]
    · rename_i hcollision
      constructor
      · rintro ⟨⟩
        exact ⟨rfl, hcollision⟩
      · rintro ⟨rfl, -⟩
        rfl

/-- The tree that is emitted is that for the runtime library of the options. -/
lemma emit_ok_iff {c : Contract} {o : Options} {f : Forest} :
    emit c o = .ok f ↔ ∃ runtime, Rust.Path.parse? o.runtime = some runtime ∧
      f = forestOf c runtime o ∧ f.collision? "" = none ∧ unread? c runtime o = none := by
  rw [emit]
  cases hparse : Rust.Path.parse? o.runtime with
  | none => simp
  | some runtime => simp [emitAgainst_ok_iff]

/-- An accepted document is emitted if the path of the runtime library can stand anywhere and no
module is at the place of a file of another, or below it. -/
lemma exists_emit_ok {doc : Document} {o : Options}
    (haccepted : (Contract.ofDocument doc).isOk = true)
    (hparse : (Rust.Path.parse? o.runtime).any Rust.Path.isUnrestricted = true)
    (hapart : ∀ d ∈ doc.declarations, ∀ g ∈ Group.all, ∀ d' ∈ doc.declarations,
      ¬ Text.split '.' d.name.module ++ [g.stem] <+: Text.split '.' d'.name.module) :
    ∃ c f, Contract.ofDocument doc = .ok c ∧ emit c o = .ok f := by
  obtain ⟨c, hc⟩ := Outcome.exists_ok_of_isOk haccepted
  obtain ⟨runtime, hruntime, hunrestricted⟩ := (Option.any_eq_true _ _).1 hparse
  have hperm := (Contract.of_ofDocument hc).perm
  refine ⟨c, forestOf c runtime o, hc, emit_ok_iff.2 ⟨runtime, hruntime, rfl, ?_, ?_⟩⟩
  · rw [(arranges_forestOf c runtime o).collision?_eq_none_iff]
    intro m hm s hs m' hm'
    obtain ⟨d, hd, rfl⟩ := mem_modules_iff.1 hm
    obtain ⟨d', hd', rfl⟩ := mem_modules_iff.1 hm'
    have hgroup : s.group ∈ Group.all := List.mem_of_mem_filter (mem_moduleFiles_iff.1 hs).1
    exact hapart d (hperm.mem_iff.1 hd) s.group hgroup d' (hperm.mem_iff.1 hd')
  · rw [unread?_eq_none_iff]
    intro m hm s hs
    rw [(mem_moduleFiles_iff.1 hs).2.2, parses_fileOf]
    exact fun d hd => Group.takes_of_isUnrestricted hunrestricted s.group d

/-- The path of the file of a group in a module. -/
def filePath (module : String) (g : Group) : List String :=
  Text.split '.' module ++ [g.stem ++ ".rs"]

lemma Group.stem_injective : Function.Injective Group.stem := by
  intro g g' h
  cases g <;> cases g' <;> first | rfl | exact absurd h (by decide)

lemma Group.fileName_injective {g g' : Group} (h : g.stem ++ ".rs" = g'.stem ++ ".rs") :
    g = g' := by
  refine Group.stem_injective (String.toList_inj.1 ?_)
  have hchars := congrArg String.toList h
  rw [String.toList_append, String.toList_append] at hchars
  exact List.append_cancel_right hchars

lemma filePath_inj {module module' : String} {g g' : Group}
    (h : filePath module g = filePath module' g') : module = module' ∧ g = g' := by
  obtain ⟨hsplit, hname⟩ := List.append_inj' h rfl
  exact ⟨Text.split_injective '.' hsplit, Group.fileName_injective (List.singleton_inj.1 hname)⟩

lemma Group.fileName_ne_moduleFileName (g : Group) : g.stem ++ ".rs" ≠ Forest.moduleFileName := by
  cases g <;> decide

/-- A file of a tree of modules that is at the path of a group in a module is the file of that
group and module. -/
lemma Forest.Arranges.mem_files_filePath_iff {files : String → List SourceFile}
    {modules : List String} {f : Forest} (hf : f.Arranges files modules) {module : String}
    {g : Group} {t : TreeFile} :
    t ∈ f.files ∧ t.path = filePath module g ↔
      module ∈ modules ∧ ∃ s ∈ files module, s.group = g ∧
        t = s.inPackage (Text.split '.' module) := by
  rw [hf.sorted.mem_files_iff]
  constructor
  · rintro ⟨⟨path, package, hpackage, ht⟩, hpath⟩
    rcases ht with rfl | ⟨s, hs, rfl⟩
    · obtain ⟨-, hname⟩ := List.append_inj' hpath rfl
      exact (g.fileName_ne_moduleFileName (List.singleton_inj.1 hname).symm).elim
    · obtain ⟨rfl, hname⟩ := List.append_inj' hpath rfl
      have hgroup : s.group = g := Group.fileName_injective (List.singleton_inj.1 hname)
      obtain ⟨m, hm, hsplit, hs'⟩ := hf.exists_module_of_mem hpackage hs
      obtain rfl := Text.split_injective '.' hsplit
      exact ⟨hm, s, hs', hgroup, rfl⟩
  · rintro ⟨hm, s, hs, rfl, rfl⟩
    obtain ⟨package, hpackage, hown⟩ := Option.map_eq_some_iff.1 (hf.own module hm)
    exact ⟨⟨_, package, hpackage, Or.inr ⟨s, hown ▸ hs, rfl⟩⟩, rfl⟩

/-- Each declaration of an emitted group has a file in the tree. -/
lemma exists_mem_files {c : Contract} {o : Options} {f : Forest} (hf : emit c o = .ok f)
    {d : Declaration} (hd : d ∈ c.registry.declarations) {g : Group} (hg : g ∈ o.groups)
    (hhas : g.has d = true) : ∃ t ∈ f.files, t.path = filePath d.name.module g := by
  obtain ⟨runtime, -, rfl, -⟩ := emit_ok_iff.1 hf
  have hmem : d ∈ (c.registry.moduleDeclarations d.name.module).filter g.has :=
    List.mem_filter.2 ⟨List.mem_filter.2 ⟨hd, by simp⟩, hhas⟩
  have hs : ⟨g, fileOf c runtime o.server d.name.module g
      ((c.registry.moduleDeclarations d.name.module).filter g.has)⟩ ∈
        moduleFiles c runtime o d.name.module :=
    mem_moduleFiles_iff.2 ⟨hg, List.ne_nil_of_mem hmem, rfl⟩
  obtain ⟨ht, hpath⟩ := (arranges_forestOf c runtime o).mem_files_filePath_iff.2
    ⟨mem_modules_of_mem_moduleFiles hs, _, hs, rfl, rfl⟩
  exact ⟨_, ht, hpath⟩

end WireContract.Emit
