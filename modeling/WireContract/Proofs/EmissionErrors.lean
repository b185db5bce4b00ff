import WireContract.Proofs.EmittedWords
import WireContract.Proofs.PathReading
import WireContract.Proofs.TreeContents

/-!
# What emission builds and when it fails

Nothing that is built from an accepted document can fail to be an identifier: every word of every
file of its tree is one, and the names that declarations, their members and imports get are no
keywords either.  Two things are left to fail.  A file cannot be read back if one of its
declarations uses the runtime library at a place where the path of the library cannot stand
(`Refuses`).  A module and a file collide if the module lies at the path of the file, or below it,
since the package on the way to a module has the name of the file as well (`Collides`).  Emission
fails exactly then, and names such a file or such a module.

The search for a collision carries the path to a package as a text.  `collision?_eq_some` says what
the text is: the names on the way, joined; for the path of a module that is the module itself
(`foldl_extendPath_split`).
-/

namespace WireContract.Emit

open Rust Schema

/-! ## The collision that is reported -/

/-- The path of a package, extended by the name of a package below it. -/
def extendPath (way name : String) : String := if way.isEmpty then name else way ++ "." ++ name

lemma toList_foldl_extendPath {way : String} (hway : way ≠ "") (names : List String) :
    (names.foldl extendPath way).toList =
      way.toList ++ (names.map String.toList).flatMap ('.' :: ·) := by
  induction names generalizing way with
  | nil => simp
  | cons name names ih =>
    have hnext : extendPath way name ≠ "" := by simp [extendPath, hway]
    rw [List.foldl_cons, ih hnext]
    simp [extendPath, hway]

lemma intercalate_cons (sep : Char) (piece : List Char) (pieces : List (List Char)) :
    List.intercalate [sep] (piece :: pieces) = piece ++ pieces.flatMap (sep :: ·) := by
  induction pieces generalizing piece with
  | nil => simp
  | cons next pieces ih => simp [List.intercalate_cons_cons, ih]

/-- The segments of a module, joined along the way to it, are the module. -/
lemma foldl_extendPath_split {module : String} (hne : "" ∉ Text.split '.' module) :
    (Text.split '.' module).foldl extendPath "" = module := by
  obtain ⟨name, names, hsplit⟩ := List.exists_cons_of_ne_nil (Text.split_ne_nil '.' module)
  have hname : name ≠ "" := by
    rintro rfl
    exact hne (hsplit ▸ List.mem_cons_self)
  have hchars : Text.splitOn '.' module.toList = (name :: names).map String.toList := by
    rw [← hsplit, Text.split, List.map_map]
    simp
  refine String.toList_inj.1 ?_
  rw [hsplit, List.foldl_cons, show extendPath "" name = name from rfl,
    toList_foldl_extendPath hname, ← Text.intercalate_splitOn '.' module.toList, hchars,
    List.map_cons, intercalate_cons]

namespace Forest

/-- A collision that is reported is a file with the name of a package beside it, reported under the
path of that package. -/
lemma Sorted.collision?_eq_some {f : Forest} (hf : f.Sorted) {way module file : String}
    (h : f.collision? way = some (module, file)) :
    ∃ path ≠ [], ∃ package, f.package? path = some package ∧
      ∃ s ∈ package.1, s.group.stem ∈ package.2.names ∧
        module = path.foldl extendPath way ++ "." ++ s.group.stem ∧ file = s.group.stem := by
  induction f generalizing way with
  | nil => cases h
  | cons name files below rest ihbelow ihrest =>
    obtain ⟨-, hbelow, hrest⟩ := id hf
    rw [collision?, Option.or_eq_some_iff, Option.or_eq_some_iff] at h
    rcases h with hown | ⟨-, hunder | ⟨-, hbeside⟩⟩
    · obtain ⟨child, hchild, hfound⟩ := List.exists_of_findSome?_eq_some hown
      obtain ⟨s, hs, heq⟩ := Option.map_eq_some_iff.1 hfound
      obtain ⟨rfl, rfl⟩ := Prod.mk.inj heq
      have hstem : s.group.stem = child := by simpa using List.find?_some hs
      subst hstem
      exact ⟨[name], by simp, (files, below), (hf.package?_cons_iff (by simp)).2 (.inl ⟨rfl, rfl⟩),
        s, List.mem_of_find?_eq_some hs, hchild, rfl, rfl⟩
    · obtain ⟨path, hpath, package, hpackage, hs⟩ := ihbelow hbelow hunder
      exact ⟨name :: path, by simp, package,
        (hf.package?_cons_iff (by simp)).2 (.inr (.inl ⟨path, hpath, rfl, hpackage⟩)), hs⟩
    · obtain ⟨path, hpath, package, hpackage, hs⟩ := ihrest hrest hbeside
      exact ⟨path, hpath, package, (hf.package?_cons_iff hpath).2 (.inr (.inr hpackage)), hs⟩

end Forest

/-- The module gets the file of the group, and a module of the document lies at the path of that
file or below it. -/
structure Collides (doc : Document) (o : Options) (module : String) (g : Group) : Prop where
  file : ∃ d ∈ doc.declarations, d.name.module = module ∧ g.has d = true
  emitted : g = .visitors → o.visitors = true
  below : ∃ d ∈ doc.declarations, Text.split '.' module ++ [g.stem] <+: d.name.segments

section Accepted

variable {doc : Document} {c : Contract} (hof : c.Of doc) (o : Options) (runtime : Path)

include hof

/-- A file of a module with a module at its path or below it is a collision of the document. -/
lemma collides_iff {module : String} {g : Group} :
    Collides doc o module g ↔ (∃ s ∈ moduleFiles c runtime o module, s.group = g) ∧
      ∃ m' ∈ c.registry.modules, Text.split '.' module ++ [g.stem] <+: Text.split '.' m' := by
  rw [exists_mem_moduleFiles_iff hof]
  simp only [mem_modules_iff_document hof]
  constructor
  · rintro ⟨hfile, hemitted, d, hd, hbelow⟩
    exact ⟨⟨hemitted, hfile⟩, _, ⟨d, hd, rfl⟩, hbelow⟩
  · rintro ⟨⟨hemitted, hfile⟩, _, ⟨d, hd, rfl⟩, hbelow⟩
    exact ⟨hfile, hemitted, d, hd, hbelow⟩

/-- The tree has a collision exactly if the document has one. -/
lemma collision?_forestOf_ne_none_iff :
    (forestOf c runtime o).collision? "" ≠ none ↔ ∃ module g, Collides doc o module g := by
  rw [ne_eq, (arranges_forestOf c runtime o).collision?_eq_none_iff]
  simp only [collides_iff hof o runtime]
  constructor
  · intro h
    push Not at h
    obtain ⟨m, -, s, hs, m', hm', hbelow⟩ := h
    exact ⟨m, s.group, ⟨s, hs, rfl⟩, m', hm', hbelow⟩
  · rintro ⟨m, _, ⟨s, hs, rfl⟩, m', hm', hbelow⟩ h
    exact h m (mem_modules_of_mem_moduleFiles hs) s hs m' hm' hbelow

/-- A collision of the tree is reported as one of the document. -/
lemma collides_of_collision? {module file : String}
    (h : (forestOf c runtime o).collision? "" = some (module, file)) :
    ∃ m g, Collides doc o m g ∧ module = m ++ "." ++ g.stem ∧ file = g.stem := by
  have hf := arranges_forestOf c runtime o
  obtain ⟨path, -, package, hpackage, s, hs, hbeside, hmodule, hfile⟩ :=
    hf.sorted.collision?_eq_some h
  obtain ⟨m, hm, rfl, hs⟩ := hf.exists_module_of_mem hpackage hs
  obtain ⟨own, hown⟩ := (Forest.mem_names_iff_exists_filesAt? hpackage).1 hbeside
  obtain ⟨m', hm', hbelow⟩ := hf.exists_module_of_filesAt? (by simp) hown
  have hne : "" ∉ Text.split '.' m :=
    fun hmem => not_lowercaseIdentifier_empty (segments_wellFormed hof hm "" hmem).1
  rw [foldl_extendPath_split hne] at hmodule
  exact ⟨m, s.group, (collides_iff hof o runtime).2 ⟨⟨s, hs, rfl⟩, m', hm', hbelow⟩, hmodule, hfile⟩

end Accepted

/-! ## The files that are refused -/

/-- The module gets the file of the group, and one of its declarations uses the runtime library
where its path cannot stand. -/
structure Refuses (doc : Document) (o : Options) (runtime : Path) (module : String) (g : Group) :
    Prop where
  refused : ∃ d ∈ doc.declarations,
    d.name.module = module ∧ g.has d = true ∧ g.takes runtime d = false
  emitted : g = .visitors → o.visitors = true

section Refused

variable {doc : Document} {c : Contract} (hof : c.Of doc) (o : Options) (runtime : Path)

include hof

/-- A file is refused exactly if it cannot be read back. -/
lemma refuses_iff {module : String} {g : Group} :
    Refuses doc o runtime module g ↔
      ∃ s ∈ moduleFiles c runtime o module, s.group = g ∧ s.file.parses = false := by
  constructor
  · rintro ⟨⟨d, hd, rfl, hhas, htakes⟩, hemitted⟩
    obtain ⟨s, hs, rfl⟩ :=
      (exists_mem_moduleFiles_iff hof runtime o).2 ⟨hemitted, d, hd, rfl, hhas⟩
    refine ⟨s, hs, rfl, Bool.eq_false_iff.2 fun hparses => ?_⟩
    rw [(mem_moduleFiles_iff.1 hs).2.2, parses_fileOf] at hparses
    have hmem : d ∈ (c.registry.moduleDeclarations d.name.module).filter s.group.has :=
      List.mem_filter.2 ⟨List.mem_filter.2 ⟨hof.perm.mem_iff.2 hd, by simp⟩, hhas⟩
    rw [hparses d hmem] at htakes
    cases htakes
  · rintro ⟨s, hs, rfl, hparses⟩
    refine ⟨?_, ((exists_mem_moduleFiles_iff hof runtime o).1 ⟨s, hs, rfl⟩).1⟩
    rw [(mem_moduleFiles_iff.1 hs).2.2, ← Bool.not_eq_true, parses_fileOf] at hparses
    push Not at hparses
    obtain ⟨d, hd, htakes⟩ := hparses
    obtain ⟨hd, hhas⟩ := List.mem_filter.1 hd
    obtain ⟨hd, hmodule⟩ := List.mem_filter.1 hd
    exact ⟨d, hof.perm.mem_iff.1 hd, by simpa using hmodule, hhas, by simpa using htakes⟩

/-- A file is reported exactly if one is refused. -/
lemma unread?_ne_none_iff :
    unread? c runtime o ≠ none ↔ ∃ module g, Refuses doc o runtime module g := by
  rw [ne_eq, unread?_eq_none_iff]
  simp only [refuses_iff hof o runtime]
  constructor
  · intro h
    push Not at h
    obtain ⟨m, -, s, hs, hparses⟩ := h
    exact ⟨m, s.group, s, hs, rfl, by simpa using hparses⟩
  · rintro ⟨m, _, s, hs, rfl, hparses⟩ h
    rw [h m (mem_modules_of_mem_moduleFiles hs) s hs] at hparses
    cases hparses

end Refused

/-! ## Errors -/

section Errors

variable {doc : Document} {c : Contract} (hof : c.Of doc) (o : Options) {runtime : Path}
  (hruntime : Path.parse? o.runtime = some runtime)

include hof hruntime

/-- An error names a file that is refused; if none is, it names a module that collides. -/
lemma emit_error_cases {e : EmitError} (he : emit c o = .error e) :
    (∃ module g, Refuses doc o runtime module g ∧ e = .notAFile (fileContext module g)) ∨
      (∀ module g, ¬ Refuses doc o runtime module g) ∧ ∃ module g, Collides doc o module g ∧
        e = .collision (module ++ "." ++ g.stem) g.stem := by
  rw [emit, hruntime] at he
  dsimp only at he
  unfold emitAgainst at he
  split at he
  · rename_i context hunread
    obtain rfl := Except.error.inj he
    obtain ⟨m, -, s, hs, hparses, rfl⟩ := exists_of_unread?_eq_some hunread
    exact .inl ⟨m, s.group, (refuses_iff hof o runtime).2 ⟨s, hs, rfl, hparses⟩, rfl⟩
  · rename_i hread
    have hnone : ∀ module g, ¬ Refuses doc o runtime module g := fun module g hrefuses =>
      (unread?_ne_none_iff hof o runtime).2 ⟨module, g, hrefuses⟩ hread
    dsimp only at he
    split at he
    · rename_i module file hcollision
      obtain rfl := Except.error.inj he
      obtain ⟨m, g, hcollides, rfl, rfl⟩ := collides_of_collision? hof o runtime hcollision
      exact .inr ⟨hnone, m, g, hcollides, rfl⟩
    · cases he

lemma exists_emit_error_iff : (∃ e, emit c o = .error e) ↔
    (∃ module g, Refuses doc o runtime module g) ∨ ∃ module g, Collides doc o module g := by
  rw [← unread?_ne_none_iff hof o runtime, ← collision?_forestOf_ne_none_iff hof o runtime, emit,
    hruntime]
  dsimp only
  unfold emitAgainst
  split
  · rename_i context hunread
    simp [hunread]
  · rename_i hread
    dsimp only
    split
    · rename_i module file hcollision
      simp [hcollision]
    · rename_i hcollision
      simp [hread, hcollision]

end Errors

/-- An object of one module, and an alias of a module two levels below it. -/
def deepBelowObjects : Document :=
  ⟨1, [.object ⟨⟨"a", "Pen"⟩, [⟨"self", .declared ⟨"a.objects.b", "Ink"⟩, none, none⟩,
      ⟨"type", .primitive .string, none, none⟩], none⟩,
    .alias ⟨⟨"a.objects.b", "Ink"⟩, .primitive .string, none⟩]⟩

/-- A document of one enumeration. -/
def oneColor : Document :=
  ⟨1, [.enum ⟨⟨"m", "Color"⟩, [⟨"RED", none⟩], none⟩]⟩

end WireContract.Emit
