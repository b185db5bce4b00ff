import WireContract.Proofs.ImportAliases
import WireContract.Proofs.PackageTree

/-!
# Paths in generated files lead to the packages of their types

A file names a declared type by a path of two segments: `super` or an alias, and the type.  What the
first segment stands for depends on the place of the file in the tree, on the other modules of the
tree and on the imports of the file.  `Forest.resolve?` reads it as a compiler does: `super` goes up
by one module, any other name is looked up among the imports first, and from there a name goes down
to the module that is declared under it.

An import goes up from the file to the root of the tree and down again to a package.  The way down
exists since the tree has a package at every path on the way to a module, and it is the only one
since segments of module paths are not escaped (`Arranges.walk?_fromRoot`).  The aliases of a file
are distinct, so each is looked up as the import that it was made for.

Types are collected once to find the modules to import and once more to be spelled.  Both run over
the same names (`mentions_stored`), so no spelled type lacks its import.
-/

namespace WireContract.Rust

/-! ## Paths and imports of a file -/

namespace Ty

mutual

/-- The paths in a type, from left to right. -/
def paths : Ty → List Path
  | .named p _ args => p :: pathsOfAll args
  | .reference _ _ t => paths t
  | .slice t => paths t
  | .dyn t => paths t
  | .some t => paths t

/-- The paths in types. -/
def pathsOfAll : List Ty → List Path
  | [] => []
  | t :: ts => paths t ++ pathsOfAll ts

end

end Ty

/-- The name that an import brings in, with the path that it stands for. -/
def useOf? : Item → Option (Ident × Path)
  | .use _ _ path .item => path.segments.getLast?.map fun i => (i, path)
  | .use _ _ path (.renamed i) => some (i, path)
  | _ => none

/-- The names that a file imports, with their paths. -/
def File.uses (file : File) : List (Ident × Path) := file.items.filterMap useOf?

/-- The name of the module around a module. -/
def Ident.parent : Ident := ⟨"super"⟩

/-- A name that needs no escape. -/
def IsPlain (name : String) : Prop := Ident.ofName name = ⟨name⟩ ∧ name ≠ "super"

lemma isPlain_of_notMem {name : String} (hkeyword : name ∉ keywords) (hname : name ≠ "_") :
    IsPlain name := by
  have hraw : name ∉ unescapable := by
    have hsub : ∀ word ∈ unescapable, word ∈ keywords ∨ word = "_" := by decide
    intro hmem
    rcases hsub name hmem with hmem | heq
    · exact hkeyword hmem
    · exact hname heq
  refine ⟨?_, ?_⟩
  · rw [Ident.ofName, rawIfKeyword, if_neg (by simpa using hraw),
      if_neg (by simpa [isKeyword] using hkeyword)]
  · rintro rfl
    exact hkeyword (by decide)

lemma IsPlain.inj {a b : String} (ha : IsPlain a) (hb : IsPlain b)
    (h : Ident.ofName a = Ident.ofName b) : a = b := by
  rw [ha.1, hb.1] at h
  exact Ident.mk.inj h

lemma IsPlain.ne_parent {a : String} (ha : IsPlain a) : Ident.ofName a ≠ Ident.parent := by
  rw [ha.1]
  exact fun h => ha.2 (Ident.mk.inj h)

lemma isPlain_stem (g : Emit.Group) : IsPlain g.stem := by
  cases g <;> exact ⟨by decide, by decide⟩

end WireContract.Rust

namespace WireContract.Emit

open Rust Schema

/-! ## Walking through the tree -/

namespace Forest

/-- The names of the modules inside the module at a place: the packages below and the files. -/
def modulesAt (f : Forest) (place : List String) : List String :=
  match f.package? place with
  | some (files, below) => below.names ++ files.map (·.group.stem)
  | none => []

/-- The module that a segment leads to from the module at a place. -/
def step? (f : Forest) (place : List String) (i : Ident) : Option (List String) :=
  if i = .parent then
    if place = [] then none else some place.dropLast
  else ((f.modulesAt place).find? fun name => .ofName name = i).map fun name => place ++ [name]

/-- The module that segments lead to from the module at a place. -/
def walk? (f : Forest) (place : List String) : List Ident → Option (List String)
  | [] => some place
  | i :: is => (f.step? place i).bind fun next => f.walk? next is

/-- The module that segments stand for in a file: the first is `super` or the name of an import. -/
def resolve? (f : Forest) (place : List String) (uses : List (Ident × Path)) :
    List Ident → Option (List String)
  | [] => some place
  | i :: is =>
    if i = .parent then f.walk? place (i :: is)
    else
      (uses.lookup i).bind fun path =>
        (f.walk? place path.segments).bind fun next => f.walk? next is

/-- In a file, the path names a type in the package of a declared type. -/
def LeadsTo (f : Forest) (place : List String) (uses : List (Ident × Path)) (q : QualifiedName)
    (p : Path) : Prop :=
  ∃ i, p = ⟨false, [i, .ofName q.name], []⟩ ∧ f.resolve? place uses [i] = some q.segments ∧
    ∃ own, f.filesAt? q.segments = some own

/-- As many steps up as the place has segments lead to the root. -/
lemma walk?_up (f : Forest) (place : List String) (is : List Ident) :
    f.walk? place (List.replicate place.length .parent ++ is) = f.walk? [] is := by
  induction hn : place.length generalizing place with
  | zero => rw [List.length_eq_zero_iff.1 hn, List.replicate_zero, List.nil_append]
  | succ n ih =>
    have hne : place ≠ [] := by
      rintro rfl
      cases hn
    have hstep : f.step? place .parent = some place.dropLast := by
      rw [step?, if_pos rfl, if_neg hne]
    rw [List.replicate_succ, List.cons_append, walk?, hstep, Option.bind_some]
    exact ih place.dropLast (by rw [List.length_dropLast, hn, Nat.add_sub_cancel])

section Arranged

variable {files : String → List SourceFile} {modules : List String} {f : Forest}
  (hf : f.Arranges files modules)
  (hplain : ∀ m ∈ modules, ∀ name ∈ Text.split '.' m, IsPlain name)

include hf hplain

/-- The names of modules in the tree need no escape. -/
lemma Arranges.isPlain_of_mem {place : List String} {name : String}
    (hname : name ∈ f.modulesAt place) : IsPlain name := by
  rw [modulesAt] at hname
  cases hpackage : f.package? place with
  | none =>
    rw [hpackage] at hname
    exact (List.not_mem_nil hname).elim
  | some package =>
    rw [hpackage] at hname
    rcases List.mem_append.1 hname with hname | hname
    · obtain ⟨own, hown⟩ := (mem_names_iff_exists_filesAt? hpackage).1 hname
      obtain ⟨m, hm, hstart⟩ := hf.exists_module_of_filesAt? (by simp) hown
      exact hplain m hm name (hstart.subset (by simp))
    · obtain ⟨s, -, rfl⟩ := List.mem_map.1 hname
      exact isPlain_stem s.group

/-- A name of a module in the tree leads to it. -/
lemma Arranges.step?_ofName {place : List String} {name : String}
    (hname : name ∈ f.modulesAt place) :
    f.step? place (.ofName name) = some (place ++ [name]) := by
  have hself := hf.isPlain_of_mem hplain hname
  rw [step?, if_neg hself.ne_parent]
  cases hfind : (f.modulesAt place).find? fun other => Ident.ofName other = .ofName name with
  | none =>
    have hnone := List.find?_eq_none.1 hfind name hname
    simp at hnone
  | some other =>
    have hother := hf.isPlain_of_mem hplain (List.mem_of_find?_eq_some hfind)
    have heq : Ident.ofName other = Ident.ofName name := by simpa using List.find?_some hfind
    rw [hother.inj hself heq]
    rfl

/-- From a package on the way to a module, the segments that remain lead to the module. -/
lemma Arranges.walk?_down {m : String} (hm : m ∈ modules) (place rest : List String)
    (hsplit : place ++ rest = Text.split '.' m) :
    f.walk? place (rest.map .ofName) = some (Text.split '.' m) := by
  induction rest generalizing place with
  | nil => rw [List.map_nil, walk?, ← hsplit, List.append_nil]
  | cons name rest ih =>
    have hnext : (place ++ [name]) ++ rest = Text.split '.' m := by simpa using hsplit
    have hstart : place <+: Text.split '.' m := ⟨_, hsplit⟩
    obtain ⟨own, hown⟩ := hf.exists_filesAt? hm hstart
    obtain ⟨package, hpackage, -⟩ := Option.map_eq_some_iff.1 hown
    have hname : name ∈ f.modulesAt place := by
      rw [modulesAt, hpackage]
      refine List.mem_append_left _ ((mem_names_iff_exists_filesAt? hpackage).2 ?_)
      exact hf.exists_filesAt? hm ⟨rest, hnext⟩
    rw [List.map_cons, walk?, hf.step?_ofName hplain hname, Option.bind_some]
    exact ih _ hnext

/-- The path of an import leads from the file to the module. -/
lemma Arranges.walk?_fromRoot (imports : Imports) (stem : String) {m : String} (hm : m ∈ modules) :
    f.walk? (Text.split '.' imports.module ++ [stem]) (imports.fromRoot m).segments =
      some (Text.split '.' m) := by
  have hdepth : imports.depth = (Text.split '.' imports.module ++ [stem]).length := by
    simp [Imports.depth]
  rw [Imports.fromRoot, hdepth]
  exact (walk?_up f _ _).trans (hf.walk?_down hplain hm [] _ rfl)

end Arranged

/-- The packages below a package of a sorted tree are sorted. -/
lemma Sorted.package {f : Forest} (hf : f.Sorted) {path : List String}
    {package : List SourceFile × Forest} (h : f.package? path = some package) :
    package.2.Sorted := by
  induction path generalizing f with
  | nil =>
    obtain rfl := Option.some.inj h
    exact hf
  | cons name path ih =>
    rw [package?_cons] at h
    obtain ⟨child, hchild, hdescend⟩ := Option.bind_eq_some_iff.1 h
    have hbelow : child.2.Sorted := hf.child hchild
    cases path with
    | nil =>
      obtain rfl := Option.some.inj hdescend
      exact hbelow
    | cons next path => exact ih hbelow hdescend

lemma Sorted.nodup_names {f : Forest} (hf : f.Sorted) : f.names.Nodup := by
  induction f with
  | nil => exact List.nodup_nil
  | cons name files below rest _ ih =>
    obtain ⟨hfirst, -, hrest⟩ := hf
    exact List.nodup_cons.2 ⟨fun hmem => (hfirst name hmem).false, ih hrest⟩

/-- In a tree without a collision, the modules inside a module have distinct names. -/
lemma Arranges.nodup_modulesAt {files : String → List SourceFile} {modules : List String}
    {f : Forest} (hf : f.Arranges files modules)
    (hgroups : ∀ m, ((files m).map (·.group)).Nodup) {way : String}
    (hcollision : f.collision? way = none) (place : List String) :
    (f.modulesAt place).Nodup := by
  rw [modulesAt]
  cases hpackage : f.package? place with
  | none => exact List.nodup_nil
  | some package =>
    have hnames := (hf.sorted.package hpackage).nodup_names
    by_cases hplace : place = []
    · rw [hplace] at hpackage
      obtain rfl := Option.some.inj hpackage
      simpa using hnames
    · have hfiles : f.filesAt? place = some package.1 := by
        rw [filesAt?, hpackage, Option.map_some]
      have hstems : (package.1.map (·.group.stem)).Nodup := by
        rcases hf.eq_some_cases hplace hfiles with ⟨m, -, -, hown⟩ | ⟨hempty, -⟩
        · have hstem := (hgroups m).map Group.stem_injective
          rw [List.map_map] at hstem
          rwa [hown]
        · rw [hempty]
          exact List.nodup_nil
      refine hnames.append hstems ?_
      intro name hname hstem
      obtain ⟨s, hs, rfl⟩ := List.mem_map.1 hstem
      exact hf.sorted.collision?_eq_none_iff.1 hcollision place hplace package hpackage s hs hname

end Forest

/-! ## Paths in types of slots -/

/-- Spelling a reference and collecting its names run over the same names. -/
lemma mentions_stored (r : TypeRef) (boxed : Bool) : (r.stored boxed).mentions = r.mentions := by
  induction r generalizing boxed with
  | primitive | binary => rfl
  | optional inner ih | external q inner ih => exact ih boxed
  | list inner ih | set inner ih => exact ih false
  | map key value ihk ihv =>
    rw [TypeRef.stored, Stored.mentions, TypeRef.mentions, ihk, ihv]
  | declared q => cases boxed <;> rfl

lemma mentions_viewed (r : TypeRef) (boxed : Bool) : (r.viewed boxed).mentions = r.mentions := by
  induction r generalizing boxed with
  | declared q => rfl
  | external q inner ih => exact ih boxed
  | _ => exact mentions_stored _ boxed

/-- The type of a stored form has a path for each name in the form, in order. -/
lemma Stored.paths_type (form : Stored) (imports : Imports) (runtime : Path) :
    (form.mentions.map imports.pathTo).Sublist (form.type imports runtime).paths := by
  induction form with
  | primitive | binary => exact List.nil_sublist _
  | option t ih | vec t ih | set t ih | boxed t ih =>
    simp only [Stored.mentions, Stored.type, Ty.apply, Ty.paths, Ty.pathsOfAll, List.append_nil]
    exact ih.cons _
  | map k v ihk ihv =>
    simp only [Stored.mentions, Stored.type, Ty.paths, Ty.pathsOfAll, List.append_nil,
      List.map_append]
    exact (ihk.append ihv).cons _
  | named q => exact List.Sublist.refl _

/-- A type that a file has for a slot of a reference: as it is stored, or as a visitor is given
it. -/
def Scope.Spells (scope : Scope) (r : TypeRef) (t : Ty) : Prop :=
  ∃ boxed, t = scope.stored r boxed ∨ t = .ref (scope.viewed r boxed)

lemma Scope.Spells.paths {scope : Scope} {r : TypeRef} {t : Ty} (h : scope.Spells r t) :
    (r.mentions.map scope.imports.pathTo).Sublist t.paths := by
  obtain ⟨boxed, rfl | rfl⟩ := h
  · rw [← mentions_stored r boxed]
    exact Stored.paths_type _ _ _
  · rw [← mentions_viewed r boxed, Ty.ref, Ty.paths]
    exact Stored.paths_type _ _ _

/-- The types of the arguments of a method. -/
def methodTypes : TraitMember → List Ty
  | .function _ s => s.args.map Prod.snd
  | .type _ _ => []

/-- The types of the slots of an item: of its fields or variants, or of the arguments of its
methods. -/
def slotTypes : Item → List Ty
  | .struct _ _ _ (.single t) => [t]
  | .struct _ _ _ (.named fields) => fields.map (·.type)
  | .enum _ _ variants => variants.filterMap (·.type)
  | .trait _ _ members => members.flatMap methodTypes
  | _ => []

/-- The file that declares a package has no slots. -/
lemma slotTypes_packageFile (files : List SourceFile) (below : Forest) :
    ∀ item ∈ (Forest.packageFile files below).items, slotTypes item = [] := by
  intro item hitem
  rcases List.mem_append.1 hitem with hmem | hmem
  · obtain ⟨name, -, rfl⟩ := List.mem_map.1 hmem
    rfl
  · obtain ⟨s, -, hs⟩ := List.mem_flatMap.1 hmem
    rcases List.mem_pair.1 hs with rfl | rfl <;> rfl

/-- Each reference of a declaration has a slot among its items in the file of a group. -/
lemma exists_slot_of_reference (scope : Scope) (server : Bool) {g : Group} {d : Declaration}
    (hg : g.has d = true) {member : String} {r : TypeRef} (hr : (member, r) ∈ d.references) :
    ∃ t ∈ (g.items scope server d).flatMap slotTypes, scope.Spells r t := by
  have hfirst : ∀ {items : List Item} {i : Item} {t : Ty}, t ∈ slotTypes i →
      t ∈ (i :: items).flatMap slotTypes :=
    fun ht => List.mem_flatMap.2 ⟨_, List.mem_cons_self, ht⟩
  cases d with
  | «alias» a =>
    obtain ⟨rfl, rfl⟩ := Prod.mk.inj (List.mem_singleton.1 hr)
    cases g with
    | aliases => exact ⟨_, hfirst List.mem_cons_self, _, .inl rfl⟩
    | _ => cases hg
  | enum e => exact (List.not_mem_nil hr).elim
  | object o =>
    obtain ⟨f, hf, heq⟩ := List.mem_map.1 hr
    obtain ⟨rfl, rfl⟩ := Prod.mk.inj heq
    cases g with
    | objects =>
      exact ⟨_, hfirst (List.mem_map.2 ⟨_, List.mem_map.2 ⟨f, hf, rfl⟩, rfl⟩), _, .inl rfl⟩
    | _ => cases hg
  | union u =>
    obtain ⟨m, hm, heq⟩ := List.mem_map.1 hr
    obtain ⟨rfl, rfl⟩ := Prod.mk.inj heq
    cases g with
    | unions =>
      have hvariant : ⟨docLines m.docs, .memberVariant m.tag,
          some (scope.stored m.type (scope.contract.isBoxed u.name m.tag))⟩ ∈
          unionVariants scope u :=
        List.mem_append_left _ (List.mem_map.2 ⟨m, hm, rfl⟩)
      exact ⟨_, hfirst (List.mem_filterMap.2 ⟨_, hvariant, rfl⟩), _, .inl rfl⟩
    | visitors =>
      have hmethod : ∀ result, ∃ method ∈ visitMethods scope u result,
          .ref (scope.viewed m.type (scope.contract.isBoxed u.name m.tag)) ∈
            methodTypes method :=
        fun result => ⟨_, List.mem_append_left _ (List.mem_map_of_mem hm), List.mem_cons_self⟩
      obtain ⟨method, hmem, ht⟩ := hmethod (some (.ofPath (.ofWords ["Self", "Output"])))
      exact ⟨_, hfirst (List.mem_flatMap.2 ⟨method, List.mem_cons_of_mem _ hmem, ht⟩), _, .inr rfl⟩
    | _ => cases hg
  | error e =>
    obtain ⟨p, hp, heq⟩ := List.mem_map.1 hr
    obtain ⟨rfl, rfl⟩ := Prod.mk.inj heq
    cases g with
    | errors =>
      exact ⟨_, hfirst (List.mem_map.2 ⟨_, List.mem_map.2 ⟨p, hp, rfl⟩, rfl⟩), false, .inl rfl⟩
    | _ => cases hg

/-! ## The imports of a file -/

/-- Each import brings in its alias for the path of its module. -/
lemma uses_imports (imports : Imports) :
    imports.items.filterMap useOf? =
      imports.aliases.map fun p => (.ofName p.2, imports.fromRoot p.1) := by
  have hlast : ∀ m, (imports.fromRoot m).segments.getLast? = some (.ofName (lastSegment m)) := by
    intro m
    have hne := Text.split_ne_nil '.' m
    rw [Imports.fromRoot, List.getLast?_append_of_ne_nil _ (by simpa using hne), List.getLast?_map,
      lastSegment, List.getLast?_eq_getLast_of_ne_nil hne]
    rfl
  rw [Imports.items, List.filterMap_map, ← List.filterMap_eq_map]
  refine List.filterMap_congr fun p _ => ?_
  by_cases hname : lastSegment p.1 = p.2
  · simp [useOf?, hname, hlast]
  · simp [useOf?, hname]

/-- The items of declarations import nothing. -/
lemma uses_items (g : Group) (scope : Scope) (server : Bool) (d : Declaration) :
    (g.items scope server d).filterMap useOf? = [] := by
  cases d with
  | «alias» | enum | object => cases g <;> rfl
  | union => cases g <;> rfl
  | error => cases server <;> cases g <;> rfl

lemma uses_fileOf (c : Contract) (runtime : Path) (server : Bool) (module : String) (g : Group)
    (ds : List Declaration) :
    (fileOf c runtime server module g ds).uses =
      (scopeOf c runtime module ds).imports.aliases.map fun p =>
        (.ofName p.2, (scopeOf c runtime module ds).imports.fromRoot p.1) := by
  have hitems : (ds.flatMap (g.items (scopeOf c runtime module ds) server)).filterMap useOf? =
      [] := by
    rw [List.filterMap_flatMap]
    simp [uses_items]
  rw [File.uses, fileOf, List.filterMap_append, hitems, List.append_nil, uses_imports]

/-- A name that is imported once is looked up as its path. -/
lemma lookup_of_nodup {uses : List (Ident × Path)} (hnodup : (uses.map Prod.fst).Nodup)
    {i : Ident} {p : Path} (h : (i, p) ∈ uses) : uses.lookup i = some p := by
  obtain ⟨before, after, rfl⟩ := List.append_of_mem h
  refine List.lookup_eq_some_iff.2 ⟨before, after, rfl, fun u hu => ?_⟩
  rw [List.map_append, List.map_cons, List.nodup_middle, List.nodup_cons] at hnodup
  rw [bne_iff_ne]
  rintro rfl
  exact hnodup.1 (List.mem_append_left _ (List.mem_map.2 ⟨u, hu, rfl⟩))

/-- The path to a type of the module itself goes up from the file. -/
lemma Imports.pathTo_of_eq {imports : Imports} {q : QualifiedName} (h : q.module = imports.module) :
    imports.pathTo q = ⟨false, [.parent, .ofName q.name], []⟩ := by
  rw [Imports.pathTo, if_pos (beq_iff_eq.2 h)]
  rfl

/-- The path to a type of an imported module starts with the alias. -/
lemma Imports.pathTo_of_ne {imports : Imports} {q : QualifiedName} (h : q.module ≠ imports.module)
    {name : String} (halias : imports.alias? q.module = some name) :
    imports.pathTo q = ⟨false, [.ofName name, .ofName q.name], []⟩ := by
  rw [Imports.pathTo, if_neg (mt beq_iff_eq.1 h), halias]

lemma unambiguous_scopeOf (c : Contract) (runtime : Path) (module : String)
    (ds : List Declaration) : (scopeOf c runtime module ds).imports.Unambiguous :=
  Imports.unambiguous_ofModules

lemma lastSegment_mem (m : String) : lastSegment m ∈ Text.split '.' m := by
  have hne := Text.split_ne_nil '.' m
  rw [lastSegment, List.getLast?_eq_getLast_of_ne_nil hne]
  exact List.getLast_mem hne

lemma suffixed_ne_underscore {base : String} (hbase : LowercaseIdentifier base) (k : ℕ) :
    suffixed base k ≠ "_" := by
  obtain ⟨x, cs, hchars, hlower, -⟩ := hbase
  have hstart : ∃ rest, (suffixed base k).toList = x :: rest := by
    cases k with
    | zero => exact ⟨cs, hchars⟩
    | succ k =>
      rw [suffixed, String.toList_append, String.toList_append, hchars]
      exact ⟨_, rfl⟩
  obtain ⟨rest, hrest⟩ := hstart
  intro h
  rw [h] at hrest
  have hx : '_' = x := (List.cons.inj hrest).1
  rw [← hx] at hlower
  exact absurd hlower (by decide)

/-! ## The files of a contract -/

section Accepted

variable {doc : Document} {c : Contract} (hof : c.Of doc)

include hof

lemma segments_wellFormed {m : String} (hm : m ∈ c.registry.modules) :
    ∀ name ∈ Text.split '.' m, LowercaseIdentifier name ∧ name ∉ keywords := by
  obtain ⟨d, hd, rfl⟩ := mem_modules_iff.1 hm
  exact (hof.lawful.wellFormed d hd).name.segments

/-- The segments of modules need no escape. -/
lemma isPlain_segment {m : String} (hm : m ∈ c.registry.modules) :
    ∀ name ∈ Text.split '.' m, IsPlain name := by
  intro name hname
  obtain ⟨hcase, hkeyword⟩ := segments_wellFormed hof hm name hname
  exact isPlain_of_notMem hkeyword (suffixed_ne_underscore hcase 0)

/-- The aliases of modules need no escape. -/
lemma isPlain_alias {imports : Imports} (h : imports.Unambiguous) {p : String × String}
    (hp : p ∈ imports.aliases) (hm : p.1 ∈ c.registry.modules) : IsPlain p.2 := by
  obtain ⟨-, hkeyword, k, hname⟩ := h.named p hp
  refine isPlain_of_notMem hkeyword ?_
  rw [hname]
  exact suffixed_ne_underscore (segments_wellFormed hof hm _ (lastSegment_mem p.1)).1 k

/-- The module of a type that a declaration mentions is a module of the contract. -/
lemma mem_modules_of_mem_mentions {d : Declaration} (hd : d ∈ c.registry.declarations)
    {q : QualifiedName} (hq : q ∈ d.mentions) : q.module ∈ c.registry.modules := by
  obtain ⟨e, he, rfl, -⟩ :=
    hof.lawful.declared q ⟨d, hd, Declaration.mem_mentions_iff.1 hq⟩
  exact mem_modules_iff.2 ⟨e, he, rfl⟩

variable {ds : List Declaration} (hds : ds ⊆ c.registry.declarations) (runtime : Path)
  (module : String)

omit hof in
/-- A file imports exactly the other modules that its declarations mention. -/
lemma mem_modules_scopeOf {m : String} :
    m ∈ (scopeOf c runtime module ds).imports.modules ↔
      (∃ d ∈ ds, ∃ q ∈ d.mentions, q.module = m) ∧ m ≠ module := by
  rw [scopeOf, Imports.mem_modules_ofModules]
  simp only [List.mem_flatMap, List.mem_map]

include hds

/-- What a file imports are modules of the contract. -/
lemma mem_modules_of_mem_aliases {p : String × String}
    (hp : p ∈ (scopeOf c runtime module ds).imports.aliases) : p.1 ∈ c.registry.modules := by
  have hmem : p.1 ∈ (scopeOf c runtime module ds).imports.modules := List.mem_map_of_mem hp
  obtain ⟨⟨d, hd, q, hq, heq⟩, -⟩ := (mem_modules_scopeOf runtime module).1 hmem
  rw [← heq]
  exact mem_modules_of_mem_mentions hof (hds hd) hq

/-- An import leads from the file to its module. -/
lemma walk?_import {o : Options} {f : Forest}
    (hf : f.Arranges (moduleFiles c runtime o) c.registry.modules) (g : Group)
    {p : String × String} (hp : p ∈ (scopeOf c runtime module ds).imports.aliases) :
    f.walk? (Text.split '.' module ++ [g.stem])
      ((scopeOf c runtime module ds).imports.fromRoot p.1).segments =
        some (Text.split '.' p.1) := by
  have hself : (scopeOf c runtime module ds).imports.module = module := rfl
  have hwalk := hf.walk?_fromRoot (fun m hm => isPlain_segment hof hm)
    (scopeOf c runtime module ds).imports g.stem
    (mem_modules_of_mem_aliases hof hds runtime module hp)
  rwa [hself] at hwalk

/-- The imports of a file have distinct names. -/
lemma nodup_uses_fileOf (server : Bool) (g : Group) :
    ((fileOf c runtime server module g ds).uses.map Prod.fst).Nodup := by
  have hunambiguous := unambiguous_scopeOf c runtime module ds
  have hplain : ∀ p ∈ (scopeOf c runtime module ds).imports.aliases, IsPlain p.2 := fun p hp =>
    isPlain_alias hof hunambiguous hp (mem_modules_of_mem_aliases hof hds runtime module hp)
  have hnames : (fileOf c runtime server module g ds).uses.map Prod.fst =
      ((scopeOf c runtime module ds).imports.aliases.map Prod.snd).map Ident.ofName := by
    simp [uses_fileOf]
  rw [hnames]
  refine hunambiguous.aliases.map_on fun a ha b hb heq => ?_
  obtain ⟨p, hp, rfl⟩ := List.mem_map.1 ha
  obtain ⟨q, hq, rfl⟩ := List.mem_map.1 hb
  exact (hplain p hp).inj (hplain q hq) heq

/-- In a file, the path to a declared type leads to the package of the type. -/
lemma leadsTo_pathTo {o : Options} {f : Forest}
    (hf : f.Arranges (moduleFiles c runtime o) c.registry.modules) (server : Bool) (g : Group)
    {d : Declaration} (hd : d ∈ ds) {q : QualifiedName} (hq : q ∈ d.mentions) :
    f.LeadsTo (Text.split '.' module ++ [g.stem]) (fileOf c runtime server module g ds).uses q
      ((scopeOf c runtime module ds).imports.pathTo q) := by
  have hmodule := mem_modules_of_mem_mentions hof (hds hd) hq
  have hexists : ∃ own, f.filesAt? q.segments = some own := ⟨_, hf.own q.module hmodule⟩
  have hunambiguous := unambiguous_scopeOf c runtime module ds
  by_cases hown : q.module = module
  · refine ⟨.parent, Imports.pathTo_of_eq hown, ?_, hexists⟩
    rw [QualifiedName.segments, hown]
    simp [Forest.resolve?, Forest.walk?, Forest.step?]
  · have hmem : q.module ∈ (scopeOf c runtime module ds).imports.modules :=
      (mem_modules_scopeOf runtime module).2 ⟨⟨d, hd, q, hq, rfl⟩, hown⟩
    obtain ⟨p, hp, hfst⟩ := List.mem_map.1 hmem
    have halias := hunambiguous.alias?_eq_some hp
    have hplain := isPlain_alias hof hunambiguous hp (hfst ▸ hmodule)
    have huse : (Ident.ofName p.2, (scopeOf c runtime module ds).imports.fromRoot p.1) ∈
        (fileOf c runtime server module g ds).uses := by
      rw [uses_fileOf]
      exact List.mem_map_of_mem hp
    have hlookup := lookup_of_nodup (nodup_uses_fileOf hof hds runtime module server g) huse
    have hwalk := walk?_import hof hds runtime module hf g hp
    refine ⟨.ofName p.2, Imports.pathTo_of_ne hown (hfst ▸ halias), ?_, hexists⟩
    rw [Forest.resolve?, if_neg hplain.ne_parent, hlookup, Option.bind_some, hwalk, hfst]
    rfl

end Accepted

/-- What the types and the imports of the file of declarations lead to. -/
structure Forest.Links (f : Forest) (c : Contract) (runtime : Path) (server : Bool)
    (module : String) (g : Group) (ds : List Declaration) : Prop where
  /-- Each reference of a declaration has a slot, with a path for each name that it mentions. -/
  slots : ∀ d ∈ ds, ∀ member r, (member, r) ∈ d.references →
    ∃ t ∈ (g.items (scopeOf c runtime module ds) server d).flatMap slotTypes,
      (scopeOf c runtime module ds).Spells r t ∧
      (r.mentions.map (scopeOf c runtime module ds).imports.pathTo).Sublist t.paths
  /-- The path for a name leads to the package of the name. -/
  paths : ∀ d ∈ ds, ∀ q ∈ d.mentions,
    f.LeadsTo (Text.split '.' module ++ [g.stem]) (fileOf c runtime server module g ds).uses q
      ((scopeOf c runtime module ds).imports.pathTo q)
  /-- The imports lead to the other modules that the declarations mention. -/
  imports : ∀ target,
    (∃ u ∈ (fileOf c runtime server module g ds).uses,
      f.walk? (Text.split '.' module ++ [g.stem]) u.2.segments = some target) ↔
    ∃ d ∈ ds, ∃ q ∈ d.mentions, q.module ≠ module ∧ q.segments = target
  /-- No two imports lead to one module. -/
  targets : ((fileOf c runtime server module g ds).uses.map fun u =>
    f.walk? (Text.split '.' module ++ [g.stem]) u.2.segments).Nodup
  /-- No two imports have one name. -/
  names : ((fileOf c runtime server module g ds).uses.map Prod.fst).Nodup

section Linked

variable {doc : Document} {c : Contract} (hof : c.Of doc) {ds : List Declaration}
  (hds : ds ⊆ c.registry.declarations) (runtime : Path) (module : String) {o : Options}
  {f : Forest} (hf : f.Arranges (moduleFiles c runtime o) c.registry.modules) (server : Bool)
  (g : Group)

include hof hds hf

/-- The imports of a file lead to its modules, in order. -/
lemma walk?_uses_fileOf :
    ((fileOf c runtime server module g ds).uses.map fun u =>
      f.walk? (Text.split '.' module ++ [g.stem]) u.2.segments) =
    (scopeOf c runtime module ds).imports.modules.map fun m => some (Text.split '.' m) := by
  rw [uses_fileOf, Imports.modules, List.map_map, List.map_map]
  exact List.map_congr_left fun p hp => walk?_import hof hds runtime module hf g hp

/-- The types and the imports of the file of declarations of a contract lead where they should. -/
lemma links_fileOf (hhas : ∀ d ∈ ds, g.has d = true) :
    f.Links c runtime server module g ds where
  slots d hd member r hr := by
    obtain ⟨t, ht, hspells⟩ :=
      exists_slot_of_reference (scopeOf c runtime module ds) server (hhas d hd) hr
    exact ⟨t, ht, hspells, hspells.paths⟩
  paths d hd q hq := leadsTo_pathTo hof hds runtime module hf server g hd hq
  imports target := by
    have hwalk := walk?_uses_fileOf hof hds runtime module hf server g
    constructor
    · rintro ⟨u, hu, htarget⟩
      have hmem := List.mem_map_of_mem
        (f := fun u => f.walk? (Text.split '.' module ++ [g.stem]) u.2.segments) hu
      rw [hwalk, List.mem_map] at hmem
      obtain ⟨m, hm, heq⟩ := hmem
      obtain ⟨⟨d, hd, q, hq, rfl⟩, hne⟩ := (mem_modules_scopeOf runtime module).1 hm
      exact ⟨d, hd, q, hq, hne, Option.some.inj (heq.trans htarget)⟩
    · rintro ⟨d, hd, q, hq, hne, rfl⟩
      have hm : q.module ∈ (scopeOf c runtime module ds).imports.modules :=
        (mem_modules_scopeOf runtime module).2 ⟨⟨d, hd, q, hq, rfl⟩, hne⟩
      have hmem := List.mem_map_of_mem (f := fun m => some (Text.split '.' m)) hm
      rw [← hwalk, List.mem_map] at hmem
      exact hmem
  targets := by
    rw [walk?_uses_fileOf hof hds runtime module hf server g]
    exact (unambiguous_scopeOf c runtime module ds).modules.map fun a b heq =>
      Text.split_injective '.' (Option.some.inj heq)
  names := nodup_uses_fileOf hof hds runtime module server g

end Linked

/-- A module has one file of each group. -/
lemma nodup_moduleFiles (c : Contract) (runtime : Path) (o : Options) (m : String) :
    ((moduleFiles c runtime o m).map (·.group)).Nodup := by
  have hgroups : o.groups.Nodup := List.Nodup.filter _ (by decide)
  refine hgroups.sublist ?_
  rw [moduleFiles]
  induction o.groups with
  | nil => exact List.nil_sublist _
  | cons g gs ih =>
    rw [List.filterMap_cons]
    by_cases hempty : ((c.registry.moduleDeclarations m).filter g.has).isEmpty = true
    · simp only [hempty, if_true]
      exact ih.cons _
    · simp only [hempty]
      exact ih.cons_cons _

/-- In the tree of an accepted document the modules inside a module have distinct names.  Each file
declares a package and has no slots, or it is the file of a group in a module: then each type that
its declarations mention has a path in the slots, the path leads to the package of the type, and the
imports lead to the other modules that are mentioned. -/
theorem emitted_paths_resolve (doc : Document) (c : Contract)
    (h : Contract.ofDocument doc = .ok c) (o : Options) (f : Forest) (hf : emit c o = .ok f) :
    (∀ place, ((f.modulesAt place).map Ident.ofName).Nodup) ∧
    ∀ t ∈ f.files,
      (t.path.getLast? = some Forest.moduleFileName ∧ ∀ item ∈ t.file.items, slotTypes item = []) ∨
      ∃ runtime module g, t.path = filePath module g ∧
        t.file = fileOf c runtime o.server module g
          ((c.registry.moduleDeclarations module).filter g.has) ∧
        f.Links c runtime o.server module g
          ((c.registry.moduleDeclarations module).filter g.has) := by
  have hof := Contract.of_ofDocument h
  obtain ⟨runtime, -, rfl, hcollision, -⟩ := emit_ok_iff.1 hf
  have harranged := arranges_forestOf c runtime o
  refine ⟨fun place => ?_, fun t ht => ?_⟩
  · refine (harranged.nodup_modulesAt (nodup_moduleFiles c runtime o) hcollision place).map_on ?_
    have hplain : ∀ name ∈ (forestOf c runtime o).modulesAt place, IsPlain name :=
      fun name hname => harranged.isPlain_of_mem (fun m hm => isPlain_segment hof hm) hname
    exact fun a ha b hb heq => (hplain a ha).inj (hplain b hb) heq
  · obtain ⟨path, package, hpackage, hfile⟩ := harranged.sorted.mem_files_iff.1 ht
    rcases hfile with rfl | ⟨s, hs, rfl⟩
    · exact Or.inl ⟨List.getLast?_concat, slotTypes_packageFile _ _⟩
    · obtain ⟨m, -, rfl, hs'⟩ := harranged.exists_module_of_mem hpackage hs
      have hcontent := (mem_moduleFiles_iff.1 hs').2.2
      refine Or.inr ⟨runtime, m, s.group, rfl, hcontent, ?_⟩
      have hds : (c.registry.moduleDeclarations m).filter s.group.has ⊆ c.registry.declarations :=
        fun d hd => List.mem_of_mem_filter (List.mem_of_mem_filter hd)
      exact links_fileOf hof hds runtime m harranged o.server s.group
        fun d hd => (List.mem_filter.1 hd).2

/-- An object that holds types of two modules with one last segment. -/
def inkedPen : Object :=
  ⟨⟨"pens", "Pen"⟩, [⟨"dark", .list (.declared ⟨"ink", "Shade"⟩), none, none⟩,
    ⟨"light", .optional (.declared ⟨"s.ink", "Shade"⟩), none, none⟩], none⟩

/-- The object and the types that it holds. -/
def twoInks : Document :=
  ⟨1, [.object inkedPen, .alias ⟨⟨"ink", "Shade"⟩, .primitive .string, none⟩,
    .alias ⟨⟨"s.ink", "Shade"⟩, .primitive .string, none⟩]⟩

/-- The types that the object holds have paths that lead to their packages, which are imported by
different names. -/
theorem emitted_paths_resolve_twoInks :
    ∃ c f t, Contract.ofDocument twoInks = .ok c ∧ emit c {} = .ok f ∧ t ∈ f.files ∧
      t.path = filePath "pens" .objects ∧
      (∀ q ∈ (Declaration.object inkedPen).mentions,
        ∃ p, f.LeadsTo ["pens", "objects"] t.file.uses q p) ∧
      ∃ dark ∈ t.file.uses, ∃ light ∈ t.file.uses,
        f.walk? ["pens", "objects"] dark.2.segments = some ["ink"] ∧
        f.walk? ["pens", "objects"] light.2.segments = some ["s", "ink"] ∧
        dark.1 ≠ light.1 := by
  have hok : (Contract.ofDocument twoInks).isOk = true :=
    Contract.isOk_of_ranked (fun m => if m = "pens" then 1 else 0) (by decide) rfl rfl (by decide)
  obtain ⟨c, f, hc, hf⟩ : ∃ c f, Contract.ofDocument twoInks = .ok c ∧ emit c {} = .ok f :=
    exists_emit_ok hok (by decide +kernel) (by decide +kernel)
  have hpen : .object inkedPen ∈ c.registry.declarations :=
    (Contract.of_ofDocument hc).perm.mem_iff.2 List.mem_cons_self
  obtain ⟨t, ht, hpath⟩ : ∃ t ∈ f.files, t.path = filePath "pens" .objects :=
    exists_mem_files hf hpen (by decide) rfl
  rcases (emitted_paths_resolve twoInks c hc {} f hf).2 t ht with
    ⟨hlast, -⟩ | ⟨runtime, module, g, hpath', hfile, hlinks⟩
  · rw [hpath] at hlast
    exact absurd hlast (by decide)
  · obtain ⟨rfl, rfl⟩ := filePath_inj (hpath.symm.trans hpath')
    have hplace : Text.split '.' "pens" ++ [Group.objects.stem] = ["pens", "objects"] := by decide
    have hmem : .object inkedPen ∈ (c.registry.moduleDeclarations "pens").filter
        Group.objects.has := List.mem_filter.2 ⟨List.mem_filter.2 ⟨hpen, rfl⟩, rfl⟩
    have hpaths := hlinks.paths _ hmem
    have hnames := hlinks.names
    obtain ⟨dark, hdark, hwalk⟩ := (hlinks.imports ["ink"]).2
      ⟨_, hmem, ⟨"ink", "Shade"⟩, by decide, by decide, by decide⟩
    obtain ⟨light, hlight, hwalk'⟩ := (hlinks.imports ["s", "ink"]).2
      ⟨_, hmem, ⟨"s.ink", "Shade"⟩, by decide, by decide, by decide⟩
    rw [← hfile] at hpaths hnames hdark hlight
    rw [hplace] at hpaths hwalk hwalk'
    refine ⟨c, f, t, hc, hf, ht, hpath, fun q hq => ⟨_, hpaths q hq⟩, dark, hdark, light, hlight,
      hwalk, hwalk', fun heq => ?_⟩
    have hsame : dark = light := List.inj_on_of_nodup_map hnames hdark hlight heq
    rw [hsame, hwalk'] at hwalk
    exact absurd hwalk (by decide)

end WireContract.Emit
