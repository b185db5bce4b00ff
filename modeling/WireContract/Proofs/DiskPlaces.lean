import Mathlib.Data.List.Infix
import Mathlib.Tactic.Common
import WireContract.Files.Disk

/-!
# Places of a disk

A disk is known by what is at each place (`Disk.get?`) and by where its paths start; two disks that
agree in this are `Alike`, whatever is planned for their coming calls.  Following a path looks only
at which places are directories, so a path that leads to a place still does when directories are
added (`locate_keeps`).

On a disk that is `WellFormed` every entry is in a directory.  Then nothing is below a place that
has no entry, and a path that leads to a place without a directory leads into a directory
(`locate_end`).
-/

namespace WireContract.Files.Disk

/-! ## What is at a place -/

@[simp] lemma get?_nil (d : Disk) : d.get? [] = some .dir := rfl

lemma get?_of_ne {names : List String} (h : names ≠ []) (d : Disk) :
    d.get? names = (d.entries.find? (·.1 == names)).map (·.2) := by
  rw [get?, List.isEmpty_eq_false_iff.2 h]
  rfl

lemma find?_filter_ne {entries : List (List String × Entry)} {names place : List String}
    (h : names ≠ place) :
    (entries.filter (·.1 != place)).find? (·.1 == names) = entries.find? (·.1 == names) := by
  rw [List.find?_filter]
  congr 1
  funext e
  by_cases he : e.1 = names
  · simp [he, h]
  · simp [he]

lemma get?_set {place : List String} (hplace : place ≠ []) (d : Disk) (e : Entry)
    (names : List String) :
    (d.set place e).get? names = if names = place then some e else d.get? names := by
  by_cases hnil : names = []
  · rw [hnil, get?_nil, get?_nil, if_neg hplace.symm]
  rw [get?_of_ne hnil, get?_of_ne hnil, set, List.find?_cons]
  by_cases h : names = place
  · simp [h]
  · rw [beq_false_of_ne (Ne.symm h), if_neg h, find?_filter_ne h]

lemma get?_erase {place : List String} (hplace : place ≠ []) (d : Disk) (names : List String) :
    (d.erase place).get? names = if names = place then none else d.get? names := by
  by_cases hnil : names = []
  · rw [hnil, get?_nil, get?_nil, if_neg hplace.symm]
  rw [get?_of_ne hnil, get?_of_ne hnil, erase]
  by_cases h : names = place
  · rw [if_pos h, h, Option.map_eq_none_iff, List.find?_eq_none]
    intro e he
    simpa using (List.mem_filter.1 he).2
  · rw [if_neg h, find?_filter_ne h]

lemma isOccupied_iff {d : Disk} {place : List String} :
    d.isOccupied place = true ↔
      ∃ names, names ≠ place ∧ place <+: names ∧ d.get? names ≠ none := by
  have hbelow : ∀ {names : List String}, names ≠ place → place <+: names → names ≠ [] := by
    rintro names hne hpre rfl
    exact hne (List.prefix_nil.1 hpre).symm
  simp only [isOccupied, List.any_eq_true, Bool.and_eq_true, List.isPrefixOf_iff_prefix, bne_iff_ne]
  constructor
  · rintro ⟨⟨names, e⟩, hmem, hpre, hne⟩
    refine ⟨names, hne, hpre, ?_⟩
    rw [get?_of_ne (hbelow hne hpre), ne_eq, Option.map_eq_none_iff, List.find?_eq_none]
    intro h
    simpa using h _ hmem
  · rintro ⟨names, hne, hpre, hsome⟩
    rw [get?_of_ne (hbelow hne hpre), ne_eq, Option.map_eq_none_iff] at hsome
    obtain ⟨⟨names', e⟩, hfind⟩ := Option.ne_none_iff_exists'.1 hsome
    obtain rfl : names' = names := by simpa using List.find?_some hfind
    exact ⟨(names', e), List.mem_of_find?_eq_some hfind, hpre, hne⟩

/-! ## Disks alike -/

/-- The disks have the same at each place. -/
structure Alike (d d' : Disk) : Prop where
  get? : ∀ names, d.get? names = d'.get? names
  workingDir : d.workingDir = d'.workingDir

lemma Alike.refl (d : Disk) : Alike d d := ⟨fun _ => rfl, rfl⟩

lemma Alike.symm {d d' : Disk} (h : Alike d d') : Alike d' d :=
  ⟨fun names => (h.get? names).symm, h.workingDir.symm⟩

lemma Alike.trans {d d' d'' : Disk} (h : Alike d d') (h' : Alike d' d'') : Alike d d'' :=
  ⟨fun names => (h.get? names).trans (h'.get? names), h.workingDir.trans h'.workingDir⟩

lemma Alike.set {d d' : Disk} (h : Alike d d') {place : List String} (hplace : place ≠ [])
    (e : Entry) : Alike (d.set place e) (d'.set place e) :=
  ⟨fun names => by rw [get?_set hplace, get?_set hplace, h.get?], h.workingDir⟩

/-- Entries at different places can be put there in either order. -/
lemma alike_set_set {d : Disk} {place place' : List String} (hplace : place ≠ [])
    (hplace' : place' ≠ []) (hne : place ≠ place') (e e' : Entry) :
    Alike ((d.set place e).set place' e') ((d.set place' e').set place e) := by
  refine ⟨fun names => ?_, rfl⟩
  rw [get?_set hplace', get?_set hplace, get?_set hplace, get?_set hplace']
  by_cases h : names = place
  · rw [if_pos h, if_pos h, if_neg (h ▸ hne)]
  · rw [if_neg h, if_neg h]

/-- Putting back what was at a place undoes a change there. -/
lemma alike_set_of_get? {d : Disk} {place : List String} (hplace : place ≠ []) {e : Entry}
    (h : d.get? place = some e) (e' : Entry) : Alike ((d.set place e').set place e) d := by
  refine ⟨fun names => ?_, rfl⟩
  rw [get?_set hplace, get?_set hplace]
  by_cases hnames : names = place
  · rw [if_pos hnames, hnames, h]
  · rw [if_neg hnames, if_neg hnames]

/-- Erasing what was put at a free place undoes it. -/
lemma alike_erase_set {d : Disk} {place : List String} (hplace : place ≠ [])
    (h : d.get? place = none) (e : Entry) : Alike ((d.set place e).erase place) d := by
  refine ⟨fun names => ?_, rfl⟩
  rw [get?_erase hplace, get?_set hplace]
  by_cases hnames : names = place
  · rw [if_pos hnames, hnames, h]
  · rw [if_neg hnames, if_neg hnames]

lemma Alike.erase {d d' : Disk} (h : Alike d d') {place : List String} (hplace : place ≠ []) :
    Alike (d.erase place) (d'.erase place) :=
  ⟨fun names => by rw [get?_erase hplace, get?_erase hplace, h.get?], h.workingDir⟩

/-! ## Paths -/

/-- The directories of the first disk are directories of the second. -/
structure Keeps (d d' : Disk) : Prop where
  isDir : ∀ place, d.get? place = some .dir → d'.get? place = some .dir
  workingDir : d.workingDir = d'.workingDir

lemma Alike.keeps {d d' : Disk} (h : Alike d d') : Keeps d d' :=
  ⟨fun place hplace => h.get? place ▸ hplace, h.workingDir⟩

lemma Keeps.trans {d d' d'' : Disk} (h : Keeps d d') (h' : Keeps d' d'') : Keeps d d'' :=
  ⟨fun place hplace => h'.isDir place (h.isDir place hplace), h.workingDir.trans h'.workingDir⟩

lemma ne_nil_of_get?_ne_dir {d : Disk} {place : List String} (h : d.get? place ≠ some .dir) :
    place ≠ [] := by
  rintro rfl
  exact h rfl

/-- Putting something where no directory is keeps the directories. -/
lemma keeps_of_set {d d' : Disk} {place : List String} {e : Entry} (h : d.get? place ≠ some .dir)
    (hd' : Alike (d.set place e) d') : Keeps d d' := by
  refine ⟨fun names hnames => ?_, hd'.workingDir⟩
  rw [← hd'.get?, get?_set (ne_nil_of_get?_ne_dir h), if_neg]
  · exact hnames
  · rintro rfl
    exact h hnames

/-- One step of a path: the place has to be a directory. -/
lemma walk_cons_ok_iff {d : Disk} {place : List String} {name : String} {names q : List String} :
    d.walk place (name :: names) = .ok q ↔ d.get? place = some .dir ∧
      ¬ nameLimit < name.utf8ByteSize ∧
        d.walk (if name = "." then place else if name = ".." then place.dropLast
          else place ++ [name]) names = .ok q := by
  rw [walk]
  cases h : d.get? place with
  | none => simp
  | some e =>
    cases e with
    | file contents => simp
    | dir =>
      by_cases hlimit : nameLimit < name.utf8ByteSize
      · simp [hlimit]
      · simp only [hlimit, if_false, not_false_eq_true, true_and, beq_iff_eq]
        split_ifs <;> simp

lemma walk_keeps {d d' : Disk} (hkeeps : Keeps d d') {place names q : List String}
    (h : d.walk place names = .ok q) : d'.walk place names = .ok q := by
  induction names generalizing place with
  | nil => exact h
  | cons name names ih =>
    rw [walk_cons_ok_iff] at h ⊢
    exact ⟨hkeeps.isDir _ h.1, h.2.1, ih h.2.2⟩

/-- Disks that are alike have the same places for paths. -/
lemma Alike.locate {d d' : Disk} (h : Alike d d') (path : String) :
    d.locate path = d'.locate path := by
  have hwalk : ∀ place names, d.walk place names = d'.walk place names := by
    intro place names
    induction names generalizing place with
    | nil => rfl
    | cons name names ih => simp only [walk, h.get?, ih]
  rw [Disk.locate, Disk.locate, hwalk, start, start, h.workingDir]

lemma Alike.read {d d' : Disk} (h : Alike d d') (path : String) : d.read path = d'.read path := by
  simp only [Disk.read, h.locate, h.get?]

/-- A path that leads to a place does so too on a disk with more directories. -/
lemma locate_keeps {d d' : Disk} (hkeeps : Keeps d d') {path : String} {q : List String}
    (h : d.locate path = .ok q) : d'.locate path = .ok q := by
  rw [locate] at h ⊢
  split_ifs at h ⊢ with husable
  rw [start, ← hkeeps.workingDir, ← start]
  exact walk_keeps hkeeps h

lemma walk_append {d : Disk} {place names names' q : List String} :
    d.walk place (names ++ names') = .ok q ↔
      ∃ p, d.walk place names = .ok p ∧ d.walk p names' = .ok q := by
  induction names generalizing place with
  | nil => simp [walk]
  | cons name names ih =>
    rw [List.cons_append, walk_cons_ok_iff, ih]
    simp only [walk_cons_ok_iff]
    constructor
    · rintro ⟨hdir, hlimit, p, hp, hq⟩
      exact ⟨p, ⟨hdir, hlimit, hp⟩, hq⟩
    · rintro ⟨p, ⟨hdir, hlimit, hp⟩, hq⟩
      exact ⟨hdir, hlimit, p, hp, hq⟩

/-! ## Well-formed disks -/

/-- Every entry is in a directory, and so is the start of paths that are not absolute. -/
structure WellFormed (d : Disk) : Prop where
  parent : ∀ names, names ≠ [] → d.get? names ≠ none → d.get? names.dropLast = some .dir
  workingDir : d.get? d.workingDir = some .dir

/-- It is enough to look at the entries. -/
lemma wellFormed_of_entries {d : Disk} (h : ∀ e ∈ d.entries, d.get? e.1.dropLast = some .dir)
    (hworkingDir : d.get? d.workingDir = some .dir) : d.WellFormed := by
  refine ⟨fun names hnames hsome => ?_, hworkingDir⟩
  rw [get?_of_ne hnames, ne_eq, Option.map_eq_none_iff, List.find?_eq_none] at hsome
  push Not at hsome
  obtain ⟨e, he, heq⟩ := hsome
  rw [← beq_iff_eq.1 heq]
  exact h e he

lemma Alike.wellFormed {d d' : Disk} (h : Alike d d') (hd : d.WellFormed) : d'.WellFormed where
  parent names hnames hsome := by
    rw [← h.get?] at hsome ⊢
    exact hd.parent names hnames hsome
  workingDir := by
    rw [← h.get?, ← h.workingDir]
    exact hd.workingDir

section WellFormed

variable {d : Disk}

/-- What is above an entry is a directory. -/
lemma WellFormed.isDir_above (hd : d.WellFormed) {place names : List String}
    (hsome : d.get? names ≠ none) (hpre : place <+: names) (hne : place ≠ names) :
    d.get? place = some .dir := by
  obtain ⟨rest, rfl⟩ := hpre
  induction rest using List.reverseRecOn with
  | nil => simp at hne
  | append_singleton rest name ih =>
    have hparent : d.get? (place ++ rest) = some .dir := by
      have h := hd.parent (place ++ (rest ++ [name])) (by simp) hsome
      rwa [← List.append_assoc, List.dropLast_concat] at h
    by_cases hrest : rest = []
    · simpa [hrest] using hparent
    · exact ih (by simp [hparent]) (by simpa using Ne.symm hrest)

/-- Nothing is below a place that has no entry. -/
lemma WellFormed.none_below (hd : d.WellFormed) {place names : List String}
    (hnone : d.get? place = none) (hpre : place <+: names) : d.get? names = none := by
  by_contra hsome
  by_cases hne : place = names
  · exact hsome (hne ▸ hnone)
  · rw [hd.isDir_above hsome hpre hne] at hnone
    cases hnone

/-- A walk that ends at a place without a directory ends in a directory. -/
lemma WellFormed.walk_end (hd : d.WellFormed) {place names q : List String}
    (hplace : d.get? place = some .dir ∨ (place ≠ [] ∧ d.get? place.dropLast = some .dir))
    (h : d.walk place names = .ok q) :
    d.get? q = some .dir ∨ (q ≠ [] ∧ d.get? q.dropLast = some .dir) := by
  induction names generalizing place with
  | nil =>
    obtain rfl := Except.ok.inj h
    exact hplace
  | cons name names ih =>
    obtain ⟨hdir, -, h⟩ := walk_cons_ok_iff.1 h
    refine ih ?_ h
    split_ifs
    · exact Or.inl hdir
    · by_cases hnil : place = []
      · exact Or.inl (by simp [hnil])
      · exact Or.inl (hd.parent place hnil (by simp [hdir]))
    · exact Or.inr ⟨by simp, by simpa using hdir⟩

lemma WellFormed.isDir_start (hd : d.WellFormed) (path : String) :
    d.get? (d.start path) = some .dir := by
  rw [start]
  split_ifs
  · rfl
  · exact hd.workingDir

/-- A path that leads to a place without a directory leads into a directory. -/
lemma WellFormed.locate_end (hd : d.WellFormed) {path : String} {q : List String}
    (h : d.locate path = .ok q) (hq : d.get? q ≠ some .dir) :
    q ≠ [] ∧ d.get? q.dropLast = some .dir := by
  rw [locate] at h
  split_ifs at h
  exact (hd.walk_end (Or.inl (hd.isDir_start path)) h).resolve_left hq

/-- Putting something where a path leads and no directory is keeps the disk well-formed. -/
lemma WellFormed.of_set (hd : d.WellFormed) {path : String} {place : List String}
    (hpath : d.locate path = .ok place) (hdir : d.get? place ≠ some .dir) {e : Entry} {d' : Disk}
    (hd' : Alike (d.set place e) d') : d'.WellFormed := by
  obtain ⟨hplace, hparent⟩ := hd.locate_end hpath hdir
  have hkeeps := keeps_of_set hdir hd'
  refine ⟨fun names hnames hsome => hkeeps.isDir _ ?_, ?_⟩
  · rw [← hd'.get?, get?_set hplace] at hsome
    split_ifs at hsome with h
    · exact h ▸ hparent
    · exact hd.parent names hnames hsome
  · rw [← hkeeps.workingDir]
    exact hkeeps.isDir _ hd.workingDir

end WellFormed

end WireContract.Files.Disk
