import Mathlib.Data.List.Chain
import WireContract.Proofs.PathNames
import WireContract.Proofs.Rollback

/-!
# Writing files in turn

What each step of writing files can do, and what a whole run does.  Before a file is written the
directories that it lacks are created from the top down.  Each is the parent of the next, so all of
them lie above the place of the file (`OnlyAbove`).  The run keeps the disk `Undoable`: whatever
step fails, the journal leads back to the disk at the start.
-/

namespace WireContract.Files

open Disk

/-! ## Steps that may fail -/

/-- Goes on, unless a step has failed. -/
def unlessFailed (next : Journal → StateM Disk (Journal × Option String)) :
    Journal × Option String → StateM Disk (Journal × Option String)
  | (journal, none) => next journal
  | (journal, some failed) => pure (journal, some failed)

lemma unlessFailed_cases {x : StateM Disk (Journal × Option String)}
    {next : Journal → StateM Disk (Journal × Option String)} {d d' : Disk} {journal' : Journal}
    {failed : Option String} (h : (x >>= unlessFailed next) d = ((journal', failed), d')) :
    (x d = ((journal', failed), d') ∧ failed ≠ none) ∨
      ∃ journal d₁, x d = ((journal, none), d₁) ∧ next journal d₁ = ((journal', failed), d') := by
  obtain ⟨⟨journal₁, failed₁⟩, d₁, hx, h⟩ := exists_of_bind h
  cases failed₁ with
  | none => exact Or.inr ⟨journal₁, d₁, hx, h⟩
  | some lost =>
    obtain ⟨heq, rfl⟩ := Prod.mk.inj h
    obtain ⟨rfl, rfl⟩ := Prod.mk.inj heq
    exact Or.inl ⟨hx, by simp⟩

/-! ## Creating directories -/

/-- Looking for the missing directories changes nothing. -/
lemma missingDirs_run {dirs needed : List String} {d d' : Disk}
    (hrun : (missingDirs dirs : StateM Disk (List String)) d = (needed, d')) :
    Alike d d' ∧ d'.faults = d.faults ∧ needed <+: dirs ∧ ∀ dir ∈ needed, dir ≠ "" := by
  induction dirs generalizing d d' needed with
  | nil =>
    obtain ⟨rfl, rfl⟩ := Prod.mk.inj hrun
    exact ⟨.refl d, rfl, List.prefix_rfl, by simp⟩
  | cons dir dirs ih =>
    rw [missingDirs] at hrun
    split_ifs at hrun with hempty
    · obtain ⟨rfl, rfl⟩ := Prod.mk.inj hrun
      exact ⟨.refl d, rfl, List.nil_prefix, by simp⟩
    · obtain ⟨b, d₁, hlook, hrun⟩ := exists_of_bind hrun
      obtain ⟨halike, hfaults⟩ := hasEntry_cases hlook
      cases b with
      | true =>
        obtain ⟨rfl, rfl⟩ := Prod.mk.inj hrun
        exact ⟨halike, hfaults, List.nil_prefix, by simp⟩
      | false =>
        rw [if_neg Bool.false_ne_true] at hrun
        obtain ⟨rest, d₂, hrest, hrun⟩ := exists_of_bind hrun
        obtain ⟨halike', hfaults', hpre, hne⟩ := ih hrest
        obtain ⟨rfl, rfl⟩ := Prod.mk.inj hrun
        refine ⟨halike.trans halike', hfaults'.trans hfaults, ?_, ?_⟩
        · exact List.cons_prefix_cons.2 ⟨rfl, hpre⟩
        · exact List.forall_mem_cons.2 ⟨by simpa using hempty, hne⟩

lemma createEach_append (journal : Journal) (dirs dirs' : List String) :
    createEach journal (dirs ++ dirs') =
      createEach journal dirs >>= unlessFailed (createEach · dirs') := by
  funext d
  induction dirs generalizing journal d with
  | nil => rfl
  | cons dir dirs ih =>
    obtain ⟨b, d₁, hmade⟩ := exists_run (Storage.createDir dir) d
    rw [List.cons_append, createEach, createEach, bind_eq hmade, bind_assoc, bind_eq hmade]
    cases b with
    | true => exact ih _ d₁
    | false => rfl

/-- On a disk as it should be, a directory is created where its path leads. -/
lemma createDir_of_parent {d d' : Disk} (hd : d.WellFormed) {path up : String}
    (hparent : parent? path = some up) (hup : up ≠ "")
    (h : (Storage.createDir up : StateM Disk Bool) d = (true, d')) :
    d'.faults = d.faults ∧ ∃ place, d.locate up = .ok place ∧ d.get? place = none ∧
      Alike (d.set place .dir) d' := by
  obtain ⟨hfaults, ⟨hfalse, -⟩ | ⟨-, place, hplace, hfree, halike⟩⟩ := createDir_cases h
  · cases hfalse
  · obtain rfl | hslash := unslashed_of_parent? hparent hup
    · -- the root without its slash is the working directory
      obtain rfl : d.workingDir = place := Except.ok.inj hplace
      rw [hd.workingDir] at hfree
      cases hfree
    · exact ⟨hfaults, place, hslash ▸ hplace, hfree, halike⟩

/-- Nothing but directories has been added, and these above where the path leads. -/
def OnlyAbove (path : String) (d d' : Disk) : Prop :=
  ∀ names, d'.get? names = d.get? names ∨ d.get? names = none ∧ d'.get? names = some .dir ∧
    ∀ place, d'.locate path = .ok place → d'.get? place ≠ some .dir → names <+: place

/-- One more directory, below those that were added before. -/
lemma OnlyAbove.step {path up : String} (hparent : parent? path = some up) (hup : up ≠ "")
    {d d₁ d₂ : Disk} (hd₁ : d₁.WellFormed) (h : OnlyAbove up d d₁) {place : List String}
    (hplace : d₁.locate up = .ok place) (hfree : d₁.get? place = none)
    (hd₂ : Alike (d₁.set place .dir) d₂) : OnlyAbove path d d₂ := by
  have hdir : d₁.get? place ≠ some .dir := hfree.trans_ne (by simp)
  have hnil := ne_nil_of_get?_ne_dir hdir
  have hkeeps : Keeps d₁ d₂ := keeps_of_set hdir hd₂
  have hwell : d₂.WellFormed := hd₁.of_set hplace hdir hd₂
  have hbelow : ∀ target, d₂.locate path = .ok target → d₂.get? target ≠ some .dir →
      place <+: target := by
    intro target htarget hfile
    obtain ⟨q, hq, hpre⟩ := locate_parent hwell hparent hup htarget hfile
    obtain rfl := Except.ok.inj (hq.symm.trans (locate_keeps hkeeps hplace))
    exact hpre
  intro names
  rw [← hd₂.get?, get?_set hnil]
  split_ifs with hnames
  · subst hnames
    obtain hsame | ⟨hnone, hadded, -⟩ := h names
    · exact Or.inr ⟨hsame.symm.trans hfree, rfl, hbelow⟩
    · exact absurd hadded hdir
  · obtain hsame | ⟨hnone, hadded, habove⟩ := h names
    · exact Or.inl hsame
    · exact Or.inr ⟨hnone, hadded, fun target htarget hfile =>
        (habove place hplace hdir).trans (hbelow target htarget hfile)⟩

/-- What every part of a run keeps; the paths are those that it may write. -/
structure Advances (d₀ : Disk) (paths : List String) (journal : Journal) (d : Disk)
    (journal' : Journal) (d' : Disk) : Prop where
  undoable : Undoable d₀ journal' d'
  keeps : Keeps d d'
  faults : d'.faults = d.faults
  files : ∀ u ∈ journal'.files, u ∈ journal.files ∨ u.path ∈ paths

lemma Advances.of_alike {d₀ d d' : Disk} {journal : Journal} (h : Undoable d₀ journal d)
    (halike : Alike d d') (hfaults : d'.faults = d.faults) (paths : List String) :
    Advances d₀ paths journal d journal d' :=
  ⟨h.alike halike, halike.keeps, hfaults, fun _ hu => Or.inl hu⟩

lemma Advances.mono {d₀ d d' : Disk} {paths paths' : List String} {journal journal' : Journal}
    (h : Advances d₀ paths journal d journal' d') (hsub : paths ⊆ paths') :
    Advances d₀ paths' journal d journal' d' :=
  ⟨h.undoable, h.keeps, h.faults, fun u hu => (h.files u hu).imp_right (@hsub u.path)⟩

lemma Advances.trans {d₀ d d₁ d₂ : Disk} {paths paths' : List String}
    {journal journal₁ journal₂ : Journal} (h : Advances d₀ paths journal d journal₁ d₁)
    (h' : Advances d₀ paths' journal₁ d₁ journal₂ d₂) :
    Advances d₀ (paths ++ paths') journal d journal₂ d₂ where
  undoable := h'.undoable
  keeps := h.keeps.trans h'.keeps
  faults := h'.faults.trans h.faults
  files u hu := by
    obtain hu | hu := h'.files u hu
    · exact (h.files u hu).imp_right (List.mem_append_left _)
    · exact Or.inr (List.mem_append_right _ hu)

variable {d₀ d d' : Disk} {journal journal' : Journal} {failed : Option String}

lemma Advances.createDir {up : String} {place : List String} (h : Undoable d₀ journal d)
    (hfaults : d'.faults = d.faults) (hplace : d.locate up = .ok place)
    (hfree : d.get? place = none) (hd' : Alike (d.set place .dir) d') :
    Advances d₀ [] journal d { journal with directories := up :: journal.directories } d' :=
  ⟨h.addDir hplace hfree hd', keeps_of_set (hfree.trans_ne (by simp)) hd', hfaults,
    fun _ hu => Or.inl hu⟩

/-- Creating the directories that a path lacks, given with the lowest first. -/
lemma createEach_run (hd₀ : d₀.WellFormed) {path : String} {needed : List String}
    (hchain : (path :: needed).IsChain fun p p' => parent? p = some p')
    (hne : ∀ dir ∈ needed, dir ≠ "") (h : Undoable d₀ journal d)
    (hrun : (createEach journal needed.reverse : StateM Disk _) d = ((journal', failed), d')) :
    Advances d₀ [] journal d journal' d' ∧ (failed = none → OnlyAbove path d d') := by
  induction needed generalizing path journal' failed d' with
  | nil =>
    obtain ⟨heq, rfl⟩ := Prod.mk.inj hrun
    obtain ⟨rfl, rfl⟩ := Prod.mk.inj heq
    exact ⟨.of_alike h (.refl d) rfl _, fun _ _ => Or.inl rfl⟩
  | cons up above ih =>
    obtain ⟨hparent, habove⟩ := List.isChain_cons_cons.1 hchain
    obtain ⟨hup, hne⟩ := List.forall_mem_cons.1 hne
    rw [List.reverse_cons, createEach_append] at hrun
    obtain ⟨hfirst, hfailed⟩ | ⟨journal₁, d₁, hfirst, hrun⟩ := unlessFailed_cases hrun
    · exact ⟨(ih habove hne hfirst).1, fun hnone => absurd hnone hfailed⟩
    · obtain ⟨hadvances, honly⟩ := ih habove hne hfirst
      have hwell := hadvances.undoable.wellFormed hd₀
      rw [createEach] at hrun
      obtain ⟨b, d₂, hmade, hrun⟩ := exists_of_bind hrun
      cases b with
      | false =>
        obtain ⟨heq, rfl⟩ := Prod.mk.inj hrun
        obtain ⟨rfl, rfl⟩ := Prod.mk.inj heq
        obtain ⟨hfaults, ⟨-, halike⟩ | ⟨htrue, -⟩⟩ := createDir_cases hmade
        · exact ⟨hadvances.trans (.of_alike hadvances.undoable halike hfaults []), nofun⟩
        · cases htrue
      | true =>
        obtain ⟨heq, rfl⟩ := Prod.mk.inj hrun
        obtain ⟨rfl, rfl⟩ := Prod.mk.inj heq
        obtain ⟨hfaults, place, hplace, hfree, halike⟩ :=
          createDir_of_parent hwell hparent hup hmade
        exact ⟨hadvances.trans (.createDir hadvances.undoable hfaults hplace hfree halike),
          fun _ => (honly rfl).step hparent hup hwell hplace hfree halike⟩

/-- Creates the directories that a file lacks. -/
def makeParents (journal : Journal) (path : String) : StateM Disk (Journal × Option String) := do
  let needed ← missingDirs (match parent? path with | some dir => ancestors dir | none => [])
  createEach journal needed.reverse

lemma makeParents_run (hd₀ : d₀.WellFormed) {path : String} (h : Undoable d₀ journal d)
    (hrun : makeParents journal path d = ((journal', failed), d')) :
    Advances d₀ [] journal d journal' d' ∧ (failed = none → OnlyAbove path d d') := by
  obtain ⟨needed, d₁, hmissing, hrun⟩ := exists_of_bind hrun
  obtain ⟨halike, hfaults, hpre, hne⟩ := missingDirs_run hmissing
  have hchain : (path :: needed).IsChain fun p p' => parent? p = some p' := by
    cases hparent : parent? path with
    | none =>
      rw [hparent, List.prefix_nil] at hpre
      rw [hpre]
      exact List.isChain_singleton path
    | some up =>
      rw [hparent] at hpre
      exact List.IsChain.prefix (isChain_ancestors hparent) (List.cons_prefix_cons.2 ⟨rfl, hpre⟩)
  obtain ⟨hadvances, honly⟩ := createEach_run hd₀ hchain hne (h.alike halike) hrun
  refine ⟨(Advances.of_alike h halike hfaults []).trans hadvances, fun hnone names => ?_⟩
  rw [halike.get?]
  exact honly hnone names

/-! ## Writing a file -/

lemma writeFile_eq (journal : Journal) (path : String) (contents : ByteArray) :
    writeFile journal path contents =
      makeParents journal path >>= unlessFailed (writeInPlace · path contents) := by
  rw [writeFile, makeParents, bind_assoc]
  congr 1
  funext needed
  congr 1
  funext ⟨journal, failed⟩
  cases failed <;> rfl

/-- Writes a file of which it is known what was at its path, and notes that. -/
def writeKnown (journal : Journal) (u : Reversal) (contents : ByteArray) :
    StateM Disk (Journal × Option String) := do
  if ← Storage.write u.path contents then
    return ({ journal with files := u :: journal.files }, none)
  else return (journal, some u.path)

lemma read_eq_bytes_iff {path : String} {contents : ByteArray} :
    d.read path = .bytes contents ↔
      ∃ place, d.locate path = .ok place ∧ d.get? place = some (.file contents) := by
  cases hpath : d.locate path with
  | error lost => cases lost <;> simp [Disk.read, hpath]
  | ok place =>
    obtain hget | ⟨_ | _, hget⟩ := Option.eq_none_or_eq_some (d.get? place) <;>
      simp [Disk.read, hpath, hget]

lemma get?_of_read_eq_missing {path : String} {place : List String}
    (hpath : d.locate path = .ok place) (h : d.read path = .missing) : d.get? place = none := by
  obtain hget | ⟨_ | _, hget⟩ := Option.eq_none_or_eq_some (d.get? place)
  · exact hget
  all_goals simp [Disk.read, hpath, hget] at h

/-- What a file that is there, or not there, means for what is taken back. -/
lemma writeInPlace_cases {path : String} {contents : ByteArray}
    (hrun : (writeInPlace journal path contents : StateM Disk _) d = ((journal', failed), d')) :
    (failed = some path ∧ journal' = journal ∧ Alike d d' ∧ d'.faults = d.faults) ∨
      ∃ u d₁, u.path = path ∧ Alike d d₁ ∧ d₁.faults = d.faults ∧
        (∀ place, d.locate path = .ok place → d.get? place = u.previous) ∧
        writeKnown journal u contents d₁ = ((journal', failed), d') := by
  obtain ⟨reading, d₁, hread, hrun⟩ := exists_of_bind hrun
  obtain ⟨halike, hfaults, hreading⟩ := read_cases hread
  cases reading with
  | failed =>
    obtain ⟨heq, rfl⟩ := Prod.mk.inj hrun
    obtain ⟨rfl, rfl⟩ := Prod.mk.inj heq
    exact Or.inl ⟨rfl, rfl, halike, hfaults⟩
  | bytes previous =>
    refine Or.inr ⟨.replaced path previous, d₁, rfl, halike, hfaults, fun place hplace => ?_, hrun⟩
    have hfound : Reading.bytes previous = d.read path := hreading.resolve_left (by simp)
    obtain ⟨place', hplace', hfile⟩ := read_eq_bytes_iff.1 hfound.symm
    obtain rfl := Except.ok.inj (hplace.symm.trans hplace')
    exact hfile
  | missing =>
    refine Or.inr ⟨.created path, d₁, rfl, halike, hfaults, fun place hplace => ?_, hrun⟩
    exact get?_of_read_eq_missing hplace (hreading.resolve_left (by simp)).symm

/-- Files have been written, and nothing else has changed but that directories above them may have
been added. -/
structure Wrote (files : List (String × ByteArray)) (d d' : Disk) : Prop where
  holds : ∀ file ∈ files, d'.read file.1 = .bytes file.2
  frame : ∀ names, d'.get? names = d.get? names ∨ (∃ file ∈ files, d'.locate file.1 = .ok names) ∨
    d.get? names = none ∧ d'.get? names = some .dir ∧
      ∃ file ∈ files, ∃ place, d'.locate file.1 = .ok place ∧ names <+: place

/-- Files at other places leave the files written before as they are. -/
lemma Wrote.append {files files' : List (String × ByteArray)} {d₁ : Disk} (h : Wrote files d d₁)
    (h' : Wrote files' d₁ d') (hkeeps : Keeps d₁ d')
    (hapart : ∀ file ∈ files, ∀ file' ∈ files', ∀ place, d'.locate file.1 = .ok place →
      d'.locate file'.1 ≠ .ok place) : Wrote (files ++ files') d d' where
  holds file hfile := by
    obtain hfile | hfile := List.mem_append.1 hfile
    · obtain ⟨place, hpath, hholds⟩ := read_eq_bytes_iff.1 (h.holds file hfile)
      have hpath' := locate_keeps hkeeps hpath
      refine read_eq_bytes_iff.2 ⟨place, hpath', ?_⟩
      obtain hsame | ⟨file', hfile', hother⟩ | ⟨hnone, -⟩ := h'.frame place
      · rw [hsame, hholds]
      · exact absurd hother (hapart file hfile file' hfile' place hpath')
      · rw [hholds] at hnone
        cases hnone
    · exact h'.holds file hfile
  frame names := by
    obtain hsame' | ⟨file, hfile, hpath⟩ | ⟨hnone, hdir, file, hfile, habove⟩ := h'.frame names
    · obtain hsame | ⟨file, hfile, hpath⟩ | ⟨hnone, hdir, file, hfile, place, hpath, hpre⟩ :=
        h.frame names
      · exact Or.inl (hsame'.trans hsame)
      · exact Or.inr (Or.inl ⟨file, List.mem_append_left _ hfile, locate_keeps hkeeps hpath⟩)
      · exact Or.inr (Or.inr ⟨hnone, hsame'.trans hdir, file, List.mem_append_left _ hfile, place,
          locate_keeps hkeeps hpath, hpre⟩)
    · exact Or.inr (Or.inl ⟨file, List.mem_append_right _ hfile, hpath⟩)
    · refine Or.inr ?_
      obtain hsame | ⟨file', hfile', hpath⟩ | ⟨-, hdir', -⟩ := h.frame names
      · exact Or.inr ⟨hsame.symm.trans hnone, hdir, file, List.mem_append_right _ hfile, habove⟩
      · exact Or.inl ⟨file', List.mem_append_left _ hfile', locate_keeps hkeeps hpath⟩
      · rw [hnone] at hdir'
        cases hdir'

/-- Where no write stops, a file is written in whole or not at all. -/
lemma writeInPlace_run {path : String} {contents : ByteArray} (hfaults : d.faults = [])
    (h : Undoable d₀ journal d)
    (hrun : (writeInPlace journal path contents : StateM Disk _) d = ((journal', failed), d')) :
    Advances d₀ [path] journal d journal' d' ∧ (failed = none → ∃ place, d.locate path = .ok place ∧
      d.get? place ≠ some .dir ∧ Alike (d.set place (.file contents)) d') := by
  obtain ⟨rfl, rfl, halike, hfaults'⟩ | ⟨u, d₁, rfl, halike, hfaults₁, hprevious, hrun⟩ :=
    writeInPlace_cases hrun
  · exact ⟨.of_alike h halike hfaults' _, nofun⟩
  obtain ⟨b, d₂, hwrite, hrun⟩ := exists_of_bind hrun
  obtain ⟨rfl, halike', hfaults₂⟩ | ⟨place, hplace, hdir, hfaults₂, hdone⟩ := write_cases hwrite
  · obtain ⟨heq, rfl⟩ := Prod.mk.inj hrun
    obtain ⟨rfl, rfl⟩ := Prod.mk.inj heq
    exact ⟨.of_alike h (halike.trans halike') (hfaults₂.trans hfaults₁) _, nofun⟩
  obtain ⟨rfl, halike'⟩ | ⟨n, rfl, hstop, -⟩ := hdone
  · obtain ⟨heq, rfl⟩ := Prod.mk.inj hrun
    obtain ⟨rfl, rfl⟩ := Prod.mk.inj heq
    rw [← halike.locate] at hplace
    rw [← halike.get?] at hdir
    have hset := (halike.set (ne_nil_of_get?_ne_dir hdir) _).trans halike'
    have hwas := hprevious place hplace
    refine ⟨⟨h.addFile hplace hwas hset, keeps_of_write hwas hset, ?_, fun u' hu' => ?_⟩,
      fun _ => ⟨place, hplace, hdir, hset⟩⟩
    · rw [hfaults₂, hfaults₁, hfaults, List.tail_nil]
    · exact (List.mem_cons.1 hu').symm.imp_right fun heq => by simp [heq]
  · rw [hfaults₁, hfaults] at hstop
    cases hstop

lemma writeFile_run (hd₀ : d₀.WellFormed) {path : String} {contents : ByteArray}
    (hfaults : d.faults = []) (h : Undoable d₀ journal d)
    (hrun : (writeFile journal path contents : StateM Disk _) d = ((journal', failed), d')) :
    Advances d₀ [path] journal d journal' d' ∧
      (failed = none → Wrote [(path, contents)] d d') := by
  rw [writeFile_eq] at hrun
  obtain ⟨hparents, hfailed⟩ | ⟨journal₁, d₁, hparents, hrun⟩ := unlessFailed_cases hrun
  · exact ⟨(makeParents_run hd₀ h hparents).1.mono (List.nil_subset _),
      fun hnone => absurd hnone hfailed⟩
  · obtain ⟨hadvances, honly⟩ := makeParents_run hd₀ h hparents
    obtain ⟨hadvances', hwritten⟩ :=
      writeInPlace_run (hadvances.faults.trans hfaults) hadvances.undoable hrun
    refine ⟨hadvances.trans hadvances', fun hnone => ?_⟩
    obtain ⟨place, hplace, hdir, halike⟩ := hwritten hnone
    have hnil := ne_nil_of_get?_ne_dir hdir
    have hplace' := locate_keeps hadvances'.keeps hplace
    refine ⟨fun file hfile => ?_, fun names => ?_⟩
    · obtain rfl := List.mem_singleton.1 hfile
      refine read_eq_bytes_iff.2 ⟨place, hplace', ?_⟩
      rw [← halike.get?, get?_set hnil, if_pos rfl]
    · rw [← halike.get?, get?_set hnil]
      split_ifs with hnames
      · exact Or.inr (Or.inl ⟨_, List.mem_singleton_self _, hnames ▸ hplace'⟩)
      · obtain hsame | ⟨hfree, hadded, habove⟩ := honly rfl names
        · exact Or.inl hsame
        · exact Or.inr (Or.inr ⟨hfree, hadded, _, List.mem_singleton_self _, place, hplace',
            habove place hplace hdir⟩)

/-! ## Writing all files -/

/-- No two of the paths lead to one place. -/
def Apart (files : List (String × ByteArray)) : Prop :=
  files.Pairwise fun file file' => ∀ (d : Disk) (place : List String),
    d.locate file.1 = .ok place → d.locate file'.1 ≠ .ok place

lemma writeEach_cons (journal : Journal) (path : String) (contents : ByteArray)
    (files : List (String × ByteArray)) :
    writeEach journal ((path, contents) :: files) =
      writeFile journal path contents >>= unlessFailed (writeEach · files) := by
  rw [writeEach]
  congr 1
  funext ⟨journal, failed⟩
  cases failed <;> rfl

theorem writeEach_run (hd₀ : d₀.WellFormed) {files : List (String × ByteArray)}
    (hapart : Apart files) (hfaults : d.faults = []) (h : Undoable d₀ journal d)
    (hrun : (writeEach journal files : StateM Disk _) d = ((journal', failed), d')) :
    Advances d₀ (files.map (·.1)) journal d journal' d' ∧ (failed = none → Wrote files d d') := by
  induction files generalizing journal d with
  | nil =>
    obtain ⟨heq, rfl⟩ := Prod.mk.inj hrun
    obtain ⟨rfl, rfl⟩ := Prod.mk.inj heq
    exact ⟨.of_alike h (.refl d) rfl _, fun _ => ⟨by simp, fun _ => Or.inl rfl⟩⟩
  | cons file files ih =>
    obtain ⟨path, contents⟩ := file
    obtain ⟨hfirst, hrest⟩ := List.pairwise_cons.1 hapart
    rw [writeEach_cons] at hrun
    obtain ⟨hfile, hfailed⟩ | ⟨journal₁, d₁, hfile, hrun⟩ := unlessFailed_cases hrun
    · exact ⟨(writeFile_run hd₀ hfaults h hfile).1.mono (by simp),
        fun hnone => absurd hnone hfailed⟩
    · obtain ⟨hadvances, hwrote⟩ := writeFile_run hd₀ hfaults h hfile
      obtain ⟨hadvances', hwrote'⟩ :=
        ih hrest (hadvances.faults.trans hfaults) hadvances.undoable hrun
      refine ⟨hadvances.trans hadvances', fun hnone => ?_⟩
      refine (hwrote rfl).append (hwrote' hnone) hadvances'.keeps fun file hfile file' hfile' => ?_
      obtain rfl := List.mem_singleton.1 hfile
      exact hfirst file' hfile' d'

/-- From the point on where a step has failed no call is refused. -/
def GrantsTakingBack (files : List (String × ByteArray)) (d : Disk) : Prop :=
  ∀ journal failed d', (writeEach .empty files : StateM Disk _) d = ((journal, some failed), d') →
    true ∉ d'.refusals

/-- What a failed run leaves is what taking back leaves. -/
lemma writeFiles_of_failed {files : List (String × ByteArray)} {lost : String} {d₁ d₂ : Disk}
    (hwrite : (writeEach .empty files : StateM Disk _) d = ((journal, some lost), d₁))
    (hback : (journal.takeBack : StateM Disk Unit) d₁ = ((), d₂)) :
    (writeFiles files : StateM Disk _) d = (some lost, d₂) := by
  rw [writeFiles, bind_eq hwrite]
  exact bind_eq hback

/-- All files are written, or the disk is as before. -/
theorem writeFiles_run (hd : d.WellFormed) {files : List (String × ByteArray)}
    (hapart : Apart files) (hfaults : d.faults = []) (hgranted : GrantsTakingBack files d)
    (hrun : (writeFiles files : StateM Disk _) d = (failed, d')) :
    (failed = none → Wrote files d d') ∧ (failed ≠ none → Alike d d') := by
  obtain ⟨⟨journal, failed₁⟩, d₁, hwrite, hend⟩ := exists_of_bind hrun
  obtain ⟨hadvances, hwrote⟩ := writeEach_run hd hapart hfaults (.empty d) hwrite
  cases failed₁ with
  | none =>
    obtain ⟨rfl, rfl⟩ := Prod.mk.inj hend
    exact ⟨fun _ => hwrote rfl, fun hne => absurd rfl hne⟩
  | some lost =>
    have hsteady : d₁.Steady :=
      ⟨hgranted journal lost d₁ hwrite, by simp [hadvances.faults, hfaults]⟩
    obtain ⟨d₂, hback, halike⟩ := hadvances.undoable.takeBack hd hsteady
    obtain ⟨rfl, rfl⟩ := Prod.mk.inj ((writeFiles_of_failed hwrite hback).symm.trans hrun)
    exact ⟨nofun, fun _ => halike⟩

end WireContract.Files
