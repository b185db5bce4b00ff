import Mathlib.Data.List.Lattice
import WireContract.Proofs.EmittedNames
import WireContract.Proofs.TreeWriting

/-!
# What the tree of a contract holds

The tree of a contract is grown module by module and rendered by a recursion of its own.  Here its
files are read without either: by their paths, by the types that they define and by the modules that
they declare.

A directory is there if a file lies in it, at any depth (`Forest.HasDirectory`).  The directories
are the packages on the way to modules (`Arranges.hasDirectory_iff`), each with one module file, and
beside the module file there is one file for each group that has a declaration
(`Arranges.mem_paths_iff`).  A declared type is defined in the file of its module and kind and in no
other file of the package, since the types of a package have distinct names.
-/

namespace WireContract.Emit

open Rust Schema

/-! ## Reading files -/

/-- The group in whose file the type of a declaration is defined. -/
def Group.of : Declaration → Group
  | .alias _ => .aliases
  | .enum _ => .enums
  | .object _ => .objects
  | .union _ => .unions
  | .error _ => .errors

/-- The name of the type that an item defines.  A trait is no type. -/
def definedType? : Item → Option Ident
  | .struct _ _ name _ => some name
  | .enum _ name _ => some name
  | _ => none

/-- The names of the types that a file defines. -/
def definedTypes (file : File) : List Ident := file.items.filterMap definedType?

/-- The module that an item declares, with whether it is public. -/
def declaredModule? : Item → Option (Bool × Ident)
  | .module _ isPublic name => some (isPublic, name)
  | _ => none

/-- The modules that a file declares. -/
def declaredModules (file : File) : List (Bool × Ident) := file.items.filterMap declaredModule?

namespace Forest

/-- The paths of the files of a tree. -/
def paths (f : Forest) : List (List String) := f.files.map (·.path)

/-- A file of the tree lies in the directory, at any depth. -/
def HasDirectory (f : Forest) (dir : List String) : Prop := ∃ rest ≠ [], dir ++ rest ∈ f.paths

/-! ## Paths -/

section Arranged

variable {files : String → List SourceFile} {modules : List String} {f : Forest}
  (hf : f.Arranges files modules)

include hf

lemma Arranges.exists_filesAt?_iff {dir : List String} :
    (∃ own, f.filesAt? dir = some own) ↔ dir = [] ∨ ∃ m ∈ modules, dir <+: Text.split '.' m := by
  constructor
  · rintro ⟨own, hown⟩
    by_cases hdir : dir = []
    · exact Or.inl hdir
    · exact Or.inr (hf.exists_module_of_filesAt? hdir hown)
  · rintro (rfl | ⟨m, hm, hstart⟩)
    · exact ⟨[], rfl⟩
    · exact hf.exists_filesAt? hm hstart

/-- The files of a tree of modules: a module file in each package on the way to a module, and the
files of the modules. -/
lemma Arranges.mem_paths_iff {path : List String} :
    path ∈ f.paths ↔
      (∃ dir, (dir = [] ∨ ∃ m ∈ modules, dir <+: Text.split '.' m) ∧
        path = dir ++ [moduleFileName]) ∨
      ∃ m ∈ modules, ∃ s ∈ files m, path = filePath m s.group := by
  have hpackages : ∀ dir, (dir = [] ∨ ∃ m ∈ modules, dir <+: Text.split '.' m) ↔
      ∃ package, f.package? dir = some package := by
    intro dir
    rw [← hf.exists_filesAt?_iff]
    simp [filesAt?]
  simp only [paths, List.mem_map, hf.sorted.mem_files_iff, hpackages]
  constructor
  · rintro ⟨t, ⟨dir, package, hpackage, rfl | ⟨s, hs, rfl⟩⟩, rfl⟩
    · exact Or.inl ⟨dir, ⟨package, hpackage⟩, rfl⟩
    · obtain ⟨m, hm, rfl, hs'⟩ := hf.exists_module_of_mem hpackage hs
      exact Or.inr ⟨m, hm, s, hs', rfl⟩
  · rintro (⟨dir, ⟨package, hpackage⟩, rfl⟩ | ⟨m, hm, s, hs, rfl⟩)
    · exact ⟨moduleFileAt dir package, ⟨dir, package, hpackage, Or.inl rfl⟩, rfl⟩
    · obtain ⟨package, hpackage, hown⟩ := Option.map_eq_some_iff.1 (hf.own m hm)
      exact ⟨s.inPackage _, ⟨_, package, hpackage, Or.inr ⟨s, hown ▸ hs, rfl⟩⟩, rfl⟩

/-- The directories of a tree of modules are the packages on the way to a module. -/
lemma Arranges.hasDirectory_iff {dir : List String} :
    f.HasDirectory dir ↔ dir = [] ∨ ∃ m ∈ modules, dir <+: Text.split '.' m := by
  constructor
  · rintro ⟨rest, hrest, hmem⟩
    obtain ⟨init, last, rfl⟩ := List.eq_nil_or_concat rest |>.resolve_left hrest
    rcases hf.mem_paths_iff.1 hmem with ⟨dir', hdir', heq⟩ | ⟨m, hm, s, -, heq⟩
    · rw [List.concat_eq_append, ← List.append_assoc] at heq
      obtain ⟨rfl, -⟩ := List.append_inj' heq rfl
      rcases hdir' with hnil | ⟨m, hm, hstart⟩
      · exact Or.inl (List.append_eq_nil_iff.1 hnil).1
      · exact Or.inr ⟨m, hm, (List.prefix_append dir init).trans hstart⟩
    · rw [filePath, List.concat_eq_append, ← List.append_assoc] at heq
      exact Or.inr ⟨m, hm, init, (List.append_inj' heq rfl).1⟩
  · intro hdir
    exact ⟨[moduleFileName], by simp, hf.mem_paths_iff.2 (Or.inl ⟨dir, hdir, rfl⟩)⟩

/-- The module file of a directory is that of the package there. -/
lemma Arranges.eq_moduleFileAt {t : TreeFile} (ht : t ∈ f.files) {dir : List String}
    (hpath : t.path = dir ++ [moduleFileName]) :
    ∃ package, f.package? dir = some package ∧ t = moduleFileAt dir package := by
  obtain ⟨path, package, hpackage, rfl | ⟨s, -, rfl⟩⟩ := hf.sorted.mem_files_iff.1 ht
  · obtain ⟨rfl, -⟩ := List.append_inj' hpath rfl
    exact ⟨package, hpackage, rfl⟩
  · obtain ⟨-, hname⟩ := List.append_inj' hpath rfl
    exact (s.group.fileName_ne_moduleFileName (List.singleton_inj.1 hname)).elim

/-- A package has a file with a name beside its module file exactly if the tree has a file there. -/
lemma Arranges.exists_stem_iff {dir : List String} {package : List SourceFile × Forest}
    (hpackage : f.package? dir = some package) {stem : String} :
    (∃ s ∈ package.1, s.group.stem = stem) ↔
      stem ++ ".rs" ≠ moduleFileName ∧ dir ++ [stem ++ ".rs"] ∈ f.paths := by
  constructor
  · rintro ⟨s, hs, rfl⟩
    refine ⟨s.group.fileName_ne_moduleFileName, List.mem_map.2 ⟨s.inPackage dir, ?_, rfl⟩⟩
    exact hf.sorted.mem_files_iff.2 ⟨dir, package, hpackage, Or.inr ⟨s, hs, rfl⟩⟩
  · rintro ⟨hne, hmem⟩
    obtain ⟨t, ht, hpath⟩ := List.mem_map.1 hmem
    obtain ⟨dir', package', hpackage', rfl | ⟨s, hs, rfl⟩⟩ := hf.sorted.mem_files_iff.1 ht
    · obtain ⟨-, hname⟩ := List.append_inj' hpath rfl
      exact (hne (List.singleton_inj.1 hname).symm).elim
    · obtain ⟨rfl, hname⟩ := List.append_inj' hpath rfl
      obtain rfl := Option.some.inj (hpackage'.symm.trans hpackage)
      exact ⟨s, hs, (String.append_left_inj ".rs").1 (List.singleton_inj.1 hname)⟩

end Arranged

/-! ## Module files -/

lemma declaredModules_packageFile (files : List SourceFile) (below : Forest) :
    declaredModules (packageFile files below) =
      below.names.map (fun name => (true, .ofName name)) ++
        files.map fun s => (false, .ofName s.group.stem) := by
  rw [declaredModules, packageFile, List.filterMap_append, List.filterMap_map,
    List.filterMap_flatMap, List.map_eq_flatMap (l := files)]
  exact congrArg₂ _ (congrFun List.filterMap_eq_map below.names) rfl

lemma definedTypes_packageFile (files : List SourceFile) (below : Forest) :
    definedTypes (packageFile files below) = [] := by
  rw [definedTypes, packageFile, List.filterMap_append, List.filterMap_map,
    List.filterMap_flatMap]
  exact List.append_eq_nil_iff.2
    ⟨List.filterMap_eq_nil_iff.2 fun _ _ => rfl, List.flatMap_eq_nil_iff.2 fun _ _ => rfl⟩

end Forest

/-! ## Types of a package -/

/-- Traits apart, the names of the types that items define are in the order of the items. -/
lemma definedTypes_sublist (items : List Item) :
    (items.filterMap definedType?).Sublist (items.filterMap typeName?) := by
  induction items with
  | nil => exact List.nil_sublist _
  | cons item items ih =>
    cases item with
    | struct | enum => exact ih.cons_cons _
    | trait => exact ih.cons _
    | use | module | inlineModule | impl => exact ih

lemma mem_definedTypes_items (scope : Scope) (server : Bool) (d : Declaration) :
    .ofName d.name.name ∈ ((Group.of d).items scope server d).filterMap definedType? := by
  cases d with
  | «alias» | enum | object | union => exact List.mem_cons_self
  | error => exact List.mem_cons_of_mem _ List.mem_cons_self

lemma Group.has_of (d : Declaration) : (Group.of d).has d = true := by
  cases d <;> rfl

lemma Group.of_ne_visitors (d : Declaration) : Group.of d ≠ .visitors := by
  cases d <;> exact nofun

lemma Options.mem_groups_iff {o : Options} {g : Group} :
    g ∈ o.groups ↔ (g = .visitors → o.visitors = true) := by
  have hall : g ∈ Group.all := by cases g <;> decide
  simp only [Options.groups, List.mem_filter, hall, true_and, Bool.or_eq_true, bne_iff_ne]
  exact or_comm.trans imp_iff_not_or.symm

section Accepted

variable {doc : Document} {c : Contract} (hof : c.Of doc) (runtime : Path) (o : Options)

include hof

lemma mem_modules_iff_document {m : String} :
    m ∈ c.registry.modules ↔ ∃ d ∈ doc.declarations, d.name.module = m := by
  simp only [mem_modules_iff, hof.perm.mem_iff]

/-- A module has a file of a group exactly if one of its declarations goes into it. -/
lemma exists_mem_moduleFiles_iff {m : String} {g : Group} :
    (∃ s ∈ moduleFiles c runtime o m, s.group = g) ↔
      (g = .visitors → o.visitors = true) ∧
        ∃ d ∈ doc.declarations, d.name.module = m ∧ g.has d = true := by
  simp only [mem_moduleFiles_iff, Options.mem_groups_iff, ← hof.perm.mem_iff]
  constructor
  · rintro ⟨s, ⟨hg, hne, -⟩, rfl⟩
    obtain ⟨d, hd⟩ := List.exists_mem_of_ne_nil _ hne
    obtain ⟨hd, hhas⟩ := List.mem_filter.1 hd
    obtain ⟨hd, hmodule⟩ := List.mem_filter.1 hd
    exact ⟨hg, d, hd, by simpa using hmodule, hhas⟩
  · rintro ⟨hg, d, hd, rfl, hhas⟩
    have hmem : d ∈ (c.registry.moduleDeclarations d.name.module).filter g.has :=
      List.mem_filter.2 ⟨List.mem_filter.2 ⟨hd, by simp⟩, hhas⟩
    exact ⟨⟨g, fileOf c runtime o.server d.name.module g
      ((c.registry.moduleDeclarations d.name.module).filter g.has)⟩,
      ⟨hg, List.ne_nil_of_mem hmem, rfl⟩, rfl⟩

/-- The files of a module define no name twice. -/
lemma nodup_typeNames_moduleFiles (m : String) :
    ((moduleFiles c runtime o m).flatMap SourceFile.typeNames).Nodup := by
  obtain ⟨rest, hperm, hsub⟩ := (typeNames_moduleFiles_subperm c runtime o m).1
  exact hperm.nodup_iff.1 ((nodup_typeNames hof m).sublist hsub)

/-- No two files of a module define a type or trait of one name. -/
lemma eq_of_mem_typeNames {m : String} {s s' : SourceFile} (hs : s ∈ moduleFiles c runtime o m)
    (hs' : s' ∈ moduleFiles c runtime o m) {name : Ident} (hname : name ∈ s.typeNames)
    (hname' : name ∈ s'.typeNames) : s = s' := by
  have hapart := (List.nodup_flatMap.1 (nodup_typeNames_moduleFiles hof runtime o m)).2
  have hsymm : Std.Symm (Function.onFun List.Disjoint SourceFile.typeNames) :=
    ⟨fun _ _ h => List.Disjoint.symm h⟩
  by_contra hne
  exact hapart.forall hs hs' hne hname hname'

/-- The items of a declaration stand together in the file of its module and kind. -/
lemma items_infix_of_mem_moduleFiles {d : Declaration} (hd : d ∈ doc.declarations) {s : SourceFile}
    (hs : s ∈ moduleFiles c runtime o d.name.module) (hgroup : s.group = .of d) :
    ∃ scope, scope.contract = c ∧ (Group.of d).items scope o.server d <:+: s.file.items := by
  have hmem : d ∈ (c.registry.moduleDeclarations d.name.module).filter (Group.of d).has :=
    List.mem_filter.2 ⟨List.mem_filter.2 ⟨hof.perm.mem_iff.2 hd, by simp⟩, Group.has_of d⟩
  obtain ⟨before, after, hsplit⟩ := List.append_of_mem hmem
  rw [(mem_moduleFiles_iff.1 hs).2.2, hgroup, hsplit, fileOf]
  refine ⟨scopeOf c runtime d.name.module (before ++ d :: after), rfl, ?_⟩
  rw [List.flatMap_append, List.flatMap_cons]
  exact (List.infix_append' _ _ _).trans (List.suffix_append _ _).isInfix

/-- The file of a declaration's module and kind holds its items and defines its type once, and no
other file of the module defines it. -/
lemma definedTypes_moduleFiles {d : Declaration} (hd : d ∈ doc.declarations) :
    ∃ s ∈ moduleFiles c runtime o d.name.module, s.group = .of d ∧
      (∃ scope, scope.contract = c ∧ (Group.of d).items scope o.server d <:+: s.file.items) ∧
      (definedTypes s.file).count (.ofName d.name.name) = 1 ∧
      ∀ s' ∈ moduleFiles c runtime o d.name.module,
        .ofName d.name.name ∈ definedTypes s'.file → s' = s := by
  obtain ⟨s, hs, hgroup⟩ := (exists_mem_moduleFiles_iff hof runtime o).2
    ⟨fun h => (Group.of_ne_visitors d h).elim, d, hd, rfl, Group.has_of d⟩
  obtain ⟨scope, hscope, htogether⟩ := items_infix_of_mem_moduleFiles hof runtime o hd hs hgroup
  have hdefined : .ofName d.name.name ∈ definedTypes s.file :=
    (htogether.sublist.filterMap _).subset (mem_definedTypes_items scope o.server d)
  have hsub : ∀ s : SourceFile, (definedTypes s.file).Sublist s.typeNames :=
    fun s => definedTypes_sublist s.file.items
  have hnodup : s.typeNames.Nodup :=
    (List.nodup_flatMap.1 (nodup_typeNames_moduleFiles hof runtime o d.name.module)).1 s hs
  refine ⟨s, hs, hgroup, ⟨scope, hscope, htogether⟩, ?_, fun s' hs' hdefined' => ?_⟩
  · exact List.count_eq_one_of_mem (hnodup.sublist (hsub s)) hdefined
  · exact eq_of_mem_typeNames hof runtime o hs' hs ((hsub s').subset hdefined')
      ((hsub s).subset hdefined)

end Accepted

/-! ## The tree -/

section Emitted

variable {doc : Document} {c : Contract} (hof : c.Of doc) {o : Options} {f : Forest}
  (hf : emit c o = .ok f)

include hof hf

/-- The texts of paths are as distinct as the paths. -/
lemma nodup_render_paths : (f.render.map (·.path)).Nodup := by
  have htexts : f.render.map (·.path) = f.paths.map (Text.join "/") := by
    rw [Forest.render, Forest.paths, List.map_map, List.map_map]
    rfl
  have hread : ∀ path ∈ f.paths, Files.steps (Text.join "/" path).toList = path := by
    intro path hpath
    obtain ⟨t, ht, rfl⟩ := List.mem_map.1 hpath
    exact Files.steps_join_names (isPlainName_of_mem_files hof hf ht)
  rw [htexts]
  refine (nodup_files_of_emit hf).map_on fun path hpath path' hpath' heq => ?_
  rw [← hread path hpath, heq, hread path' hpath']

/-- The paths of the tree of a document. -/
lemma mem_paths_iff_document {path : List String} :
    path ∈ f.paths ↔
      (∃ dir, (dir = [] ∨ ∃ d ∈ doc.declarations, dir <+: d.name.segments) ∧
        path = dir ++ [Forest.moduleFileName]) ∨
      ∃ d ∈ doc.declarations, ∃ g : Group, g.has d = true ∧ (g = .visitors → o.visitors = true) ∧
        path = filePath d.name.module g := by
  obtain ⟨runtime, -, rfl, -⟩ := emit_ok_iff.1 hf
  rw [(arranges_forestOf c runtime o).mem_paths_iff]
  refine or_congr (exists_congr fun dir => and_congr_left fun _ => or_congr_right ?_) ?_
  · constructor
    · rintro ⟨m, hm, hstart⟩
      obtain ⟨d, hd, rfl⟩ := (mem_modules_iff_document hof).1 hm
      exact ⟨d, hd, hstart⟩
    · rintro ⟨d, hd, hstart⟩
      exact ⟨d.name.module, (mem_modules_iff_document hof).2 ⟨d, hd, rfl⟩, hstart⟩
  · constructor
    · rintro ⟨m, -, s, hs, rfl⟩
      obtain ⟨hvisitors, d, hd, rfl, hhas⟩ :=
        (exists_mem_moduleFiles_iff hof runtime o).1 ⟨s, hs, rfl⟩
      exact ⟨d, hd, s.group, hhas, hvisitors, rfl⟩
    · rintro ⟨d, hd, g, hhas, hvisitors, rfl⟩
      obtain ⟨s, hs, rfl⟩ :=
        (exists_mem_moduleFiles_iff hof runtime o).2 ⟨hvisitors, d, hd, rfl, hhas⟩
      exact ⟨_, mem_modules_of_mem_moduleFiles hs, s, hs, rfl⟩

/-- No directory has the name of a file beside it, without the extension. -/
lemma not_hasDirectory_stem {dir : List String} {stem : String}
    (hmem : dir ++ [stem ++ ".rs"] ∈ f.paths) : ¬ f.HasDirectory (dir ++ [stem]) := by
  obtain ⟨runtime, -, rfl, hcollision, -⟩ := emit_ok_iff.1 hf
  have harranged := arranges_forestOf c runtime o
  rw [harranged.hasDirectory_iff]
  rintro (hnil | ⟨m, hm, hstart⟩)
  · simp at hnil
  · rcases harranged.mem_paths_iff.1 hmem with ⟨dir', -, heq⟩ | ⟨m', hm', s, hs, heq⟩
    · -- the file declares the package, and no module is called `mod`
      obtain ⟨-, hname⟩ := List.append_inj' heq rfl
      have hstem : stem = "mod" :=
        (String.append_left_inj ".rs").1 (List.singleton_inj.1 hname)
      refine (segments_wellFormed hof hm stem (hstart.subset (by simp))).2 ?_
      rw [hstem]
      decide
    · obtain ⟨rfl, hname⟩ := List.append_inj' heq rfl
      have hstem : stem = s.group.stem :=
        (String.append_left_inj ".rs").1 (List.singleton_inj.1 hname)
      rw [hstem] at hstart
      exact harranged.collision?_eq_none_iff.1 hcollision m' hm' s hs m hm hstart

/-- A module file declares the directories and the files beside it, each once. -/
lemma declaredModules_moduleFile {t : TreeFile} (ht : t ∈ f.files) {dir : List String}
    (hpath : t.path = dir ++ [Forest.moduleFileName]) :
    (declaredModules t.file).Nodup ∧
      (∀ name, (true, name) ∈ declaredModules t.file ↔ f.HasDirectory (dir ++ [name.text])) ∧
      ∀ name, (false, name) ∈ declaredModules t.file ↔
        name.text ++ ".rs" ≠ Forest.moduleFileName ∧ dir ++ [name.text ++ ".rs"] ∈ f.paths := by
  obtain ⟨runtime, -, rfl, hcollision, -⟩ := emit_ok_iff.1 hf
  have harranged := arranges_forestOf c runtime o
  obtain ⟨package, hpackage, rfl⟩ := harranged.eq_moduleFileAt ht hpath
  have hmodules : (forestOf c runtime o).modulesAt dir =
      package.2.names ++ package.1.map (·.group.stem) := by
    rw [Forest.modulesAt, hpackage]
  have hplain : ∀ name ∈ (forestOf c runtime o).modulesAt dir, Ident.ofName name = ⟨name⟩ :=
    fun name hname => (harranged.isPlain_of_mem (fun m hm => isPlain_segment hof hm) hname).1
  rw [hmodules, List.forall_mem_append] at hplain
  have hdeclared : declaredModules (Forest.moduleFileAt dir package).file =
      package.2.names.map (fun name => (true, ⟨name⟩)) ++
        package.1.map fun s => (false, ⟨s.group.stem⟩) := by
    rw [Forest.moduleFileAt, Forest.declaredModules_packageFile]
    refine congrArg₂ _ (List.map_congr_left fun name hname => ?_)
      (List.map_congr_left fun s hs => ?_)
    · rw [hplain.1 name hname]
    · rw [hplain.2 _ (List.mem_map_of_mem hs)]
  rw [hdeclared]
  refine ⟨List.Nodup.of_map (fun p => p.2.text) ?_, fun name => ?_, fun name => ?_⟩
  · have hnames := harranged.nodup_modulesAt (nodup_moduleFiles c runtime o) hcollision dir
    rw [hmodules] at hnames
    simpa [Function.comp_def] using hnames
  · rw [harranged.hasDirectory_iff, ← harranged.exists_filesAt?_iff,
      ← Forest.mem_names_iff_exists_filesAt? hpackage]
    cases name
    simp
  · rw [← harranged.exists_stem_iff hpackage]
    cases name
    simp

/-- The type of a declaration is defined, with all that is emitted for it, in the file of its module
and kind, and in no other file of the package. -/
lemma exists_file_of_declaration {d : Declaration} (hd : d ∈ doc.declarations) :
    ∃ t ∈ f.files, t.path = filePath d.name.module (.of d) ∧
      (∃ scope, scope.contract = c ∧ (Group.of d).items scope o.server d <:+: t.file.items) ∧
      (definedTypes t.file).count (.ofName d.name.name) = 1 ∧
      ∀ t' ∈ f.files, t'.path.dropLast = d.name.segments →
        .ofName d.name.name ∈ definedTypes t'.file → t' = t := by
  obtain ⟨runtime, -, rfl, -⟩ := emit_ok_iff.1 hf
  have harranged := arranges_forestOf c runtime o
  obtain ⟨s, hs, hgroup, hitems, hcount, hunique⟩ := definedTypes_moduleFiles hof runtime o hd
  obtain ⟨ht, hpath⟩ := harranged.mem_files_filePath_iff.2
    ⟨mem_modules_of_mem_moduleFiles hs, s, hs, rfl, rfl⟩
  refine ⟨_, ht, hgroup ▸ hpath, hitems, hcount, fun t' ht' hdir hdefined => ?_⟩
  obtain ⟨path, package, hpackage, rfl | ⟨s', hs', rfl⟩⟩ := harranged.sorted.mem_files_iff.1 ht'
  · rw [Forest.moduleFileAt, Forest.definedTypes_packageFile] at hdefined
    exact (List.not_mem_nil hdefined).elim
  · rw [SourceFile.inPackage, List.dropLast_concat] at hdir
    obtain ⟨m, -, hsplit, hs''⟩ := harranged.exists_module_of_mem hpackage hs'
    obtain rfl := Text.split_injective '.' (hsplit.trans hdir)
    rw [hunique s' hs'' hdefined, hdir]
    rfl

end Emitted

/-- The tree of an accepted document has the files that its declarations ask for, and no two at one
path: a module file in the root and in each package on the way to a module, and in the package of a
module one file for each group that has a declaration, visitors with values included if they are
asked for.  No directory is named like a file beside it.  Each declaration is emitted in the file of
its module and kind, once and nowhere else in the package.  Each module file declares the
directories beside it as public modules and the files beside it as private ones, each once, and
nothing else. -/
theorem tree_holds_declarations_once (doc : Document) (c : Contract)
    (h : Contract.ofDocument doc = .ok c) (o : Options) (f : Forest) (hf : emit c o = .ok f) :
    (f.render.map (·.path)).Nodup ∧
    (∀ path, path ∈ f.paths ↔
      (∃ dir, (dir = [] ∨ ∃ d ∈ doc.declarations, dir <+: d.name.segments) ∧
        path = dir ++ ["mod.rs"]) ∨
      ∃ d ∈ doc.declarations, ∃ g : Group, g.has d = true ∧ (g = .visitors → o.visitors = true) ∧
        path = d.name.segments ++ [g.stem ++ ".rs"]) ∧
    (∀ dir stem, dir ++ [stem ++ ".rs"] ∈ f.paths → ¬ f.HasDirectory (dir ++ [stem])) ∧
    (∀ d ∈ doc.declarations, ∃ t ∈ f.files,
      t.path = d.name.segments ++ [(Group.of d).stem ++ ".rs"] ∧
      (∃ scope, scope.contract = c ∧ (Group.of d).items scope o.server d <:+: t.file.items) ∧
      (definedTypes t.file).count (.ofName d.name.name) = 1 ∧
      ∀ t' ∈ f.files, t'.path.dropLast = d.name.segments →
        .ofName d.name.name ∈ definedTypes t'.file → t' = t) ∧
    ∀ t ∈ f.files, ∀ dir, t.path = dir ++ ["mod.rs"] → (declaredModules t.file).Nodup ∧
      (∀ name, (true, name) ∈ declaredModules t.file ↔ f.HasDirectory (dir ++ [name.text])) ∧
      ∀ name, (false, name) ∈ declaredModules t.file ↔
        name.text ++ ".rs" ≠ "mod.rs" ∧ dir ++ [name.text ++ ".rs"] ∈ f.paths := by
  have hof := Contract.of_ofDocument h
  exact ⟨nodup_render_paths hof hf, fun path => mem_paths_iff_document hof hf,
    fun dir stem => not_hasDirectory_stem hof hf,
    fun d hd => exists_file_of_declaration hof hf hd,
    fun t ht dir hpath => declaredModules_moduleFile hof hf ht hpath⟩

/-- A module with an alias above a module with a union. -/
def mixedInks : Document :=
  ⟨1, [.alias ⟨⟨"ink", "Shade"⟩, .primitive .string, none⟩,
    .union ⟨⟨"ink.tone", "Mix"⟩, [⟨"shade", .declared ⟨"ink", "Shade"⟩, none⟩], none⟩]⟩

lemma isOk_mixedInks : (Contract.ofDocument mixedInks).isOk = true :=
  Contract.isOk_of_ranked (fun m => if m = "ink" then 0 else 1) (by decide) rfl rfl (by decide)

/-- The upper module has a file and a directory, which its module file declares; the union is in the
file of unions of the lower module, beside the file of its visitors. -/
theorem tree_holds_declarations_once_mixedInks :
    ∃ c f, Contract.ofDocument mixedInks = .ok c ∧ emit c {} = .ok f ∧
      (f.render.map (·.path)).Nodup ∧ ["ink", "tone", "visitors.rs"] ∈ f.paths ∧
      ¬ f.HasDirectory ["ink", "aliases"] ∧
      (∃ t ∈ f.files, t.path = ["ink", "tone", "unions.rs"] ∧
        (definedTypes t.file).count ⟨"Mix"⟩ = 1) ∧
      ∃ t ∈ f.files, t.path = ["ink", "mod.rs"] ∧ (true, ⟨"tone"⟩) ∈ declaredModules t.file ∧
        (false, ⟨"aliases"⟩) ∈ declaredModules t.file := by
  obtain ⟨c, f, hc, hf⟩ : ∃ c f, Contract.ofDocument mixedInks = .ok c ∧ emit c {} = .ok f :=
    exists_emit_ok isOk_mixedInks (by decide +kernel) (by decide +kernel)
  obtain ⟨hnodup, hpaths, hapart, hdeclarations, hmodules⟩ :=
    tree_holds_declarations_once mixedInks c hc {} f hf
  have hvisitors : ["ink", "tone", "visitors.rs"] ∈ f.paths :=
    (hpaths _).2 (Or.inr ⟨_, List.mem_cons_of_mem _ List.mem_cons_self, .visitors, rfl,
      fun _ => rfl, by decide⟩)
  have haliases : ["ink", "aliases.rs"] ∈ f.paths :=
    (hpaths _).2 (Or.inr ⟨_, List.mem_cons_self, .aliases, rfl, by decide, by decide⟩)
  have hmodule : ["ink", "mod.rs"] ∈ f.paths :=
    (hpaths _).2 (Or.inl ⟨["ink"], Or.inr ⟨_, List.mem_cons_self, by decide⟩, rfl⟩)
  obtain ⟨t, ht, hpath, -, hcount, -⟩ :=
    hdeclarations _ (List.mem_cons_of_mem _ List.mem_cons_self)
  obtain ⟨t', ht', hpath'⟩ := List.mem_map.1 hmodule
  obtain ⟨-, hpublic, hprivate⟩ := hmodules t' ht' ["ink"] hpath'
  refine ⟨c, f, hc, hf, hnodup, hvisitors, hapart ["ink"] "aliases" haliases,
    ⟨t, ht, hpath.trans (by decide), ?_⟩, t', ht', hpath', ?_, ?_⟩
  · exact hcount
  · exact (hpublic ⟨"tone"⟩).2 ⟨["visitors.rs"], by simp, hvisitors⟩
  · exact (hprivate ⟨"aliases"⟩).2 ⟨by decide, haliases⟩

end WireContract.Emit
