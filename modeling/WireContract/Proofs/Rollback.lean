import Mathlib.Data.List.Infix
import Mathlib.Tactic.Common
import WireContract.Proofs.DiskPlaces

/-!
# Taking back what was written

The journal of a run holds the directories that it created and the files that it wrote, the latest
first.  The two are written in turns but taken back one after the other, all files first.  What
makes this right is that a directory can as well be created before the files:
`Undoable d₀ journal d` says that `d` comes from `d₀` by first creating the directories of the
journal and then writing its files.  A new directory is moved to its place before the files by
`FilesChanged.set`.

`undoFiles_run` and `removeDirs_run` take the two parts back.  A file that the journal does not know
of, such as one whose writing stopped, stays, and so do the directories above it; `removeDirs_run`
says this for both cases at once.
-/

namespace WireContract.Files

open Disk

/-! ## Calls -/

namespace Disk

/-- No coming call is refused, and no coming write stops. -/
structure Steady (d : Disk) : Prop where
  refusals : true ∉ d.refusals
  faults : ∀ n, some n ∉ d.faults

/-- The disk when one more call has been made. -/
def later (d : Disk) : Disk := { d with refusals := d.refusals.tail }

lemma alike_later (d : Disk) : Alike d d.later := ⟨fun _ => rfl, rfl⟩

lemma Steady.later {d : Disk} (h : d.Steady) : d.later.Steady :=
  ⟨fun hmem => h.refusals (List.mem_of_mem_tail hmem), h.faults⟩

/-- The disk with another plan for its writes. -/
def planned (d : Disk) (faults : List (Option Nat)) : Disk := { d with faults := faults }

lemma alike_planned (d : Disk) (faults : List (Option Nat)) : Alike d (d.planned faults) :=
  ⟨fun _ => rfl, rfl⟩

lemma call_refused {d : Disk} (h : d.refusals.head? = some true) {α : Type} (refused : α)
    (action : Disk → α × Disk) : call refused action d = (refused, d.later) := by
  unfold call
  dsimp only
  rw [if_pos (by simpa using h)]
  rfl

lemma call_eq {d : Disk} (h : d.refusals.head? ≠ some true) {α : Type} (refused : α)
    (action : Disk → α × Disk) : call refused action d = action d.later := by
  unfold call
  dsimp only
  rw [if_neg (by simpa using h)]
  rfl

/-- A call is refused or made. -/
lemma call_eq_or {α : Type} (refused : α) (action : Disk → α × Disk) (d : Disk) :
    call refused action d = (refused, d.later) ∨ call refused action d = action d.later := by
  by_cases h : d.refusals.head? = some true
  · exact Or.inl (call_refused h refused action)
  · exact Or.inr (call_eq h refused action)

lemma Steady.call_eq {d : Disk} (h : d.Steady) {α : Type} (refused : α)
    (action : Disk → α × Disk) : call refused action d = action d.later :=
  Disk.call_eq (fun hhead => h.refusals (List.mem_of_mem_head? hhead)) refused action

lemma exists_run {α : Type} (x : StateM Disk α) (d : Disk) : ∃ a d', x d = (a, d') :=
  ⟨_, _, rfl⟩

lemma bind_eq {α β : Type} {x : StateM Disk α} {f : α → StateM Disk β} {d d' : Disk} {a : α}
    (h : x d = (a, d')) : (x >>= f) d = f a d' := by
  change f (x d).1 (x d).2 = _
  rw [h]

/-- A run of two parts is a run of the first and then one of the second. -/
lemma exists_of_bind {α β : Type} {x : StateM Disk α} {f : α → StateM Disk β} {d : Disk}
    {r : β × Disk} (h : (x >>= f) d = r) : ∃ a d', x d = (a, d') ∧ f a d' = r :=
  ⟨_, _, rfl, h⟩

section Cases

variable {d d' : Disk} {path : String} {b : Bool}

/-- Looking changes nothing. -/
lemma hasEntry_cases (h : (Storage.hasEntry path : StateM Disk Bool) d = (b, d')) :
    Alike d d' ∧ d'.faults = d.faults := by
  obtain hcall | hcall := call_eq_or false (fun d => (d.hasEntry path, d)) d
  all_goals
    obtain ⟨-, rfl⟩ := Prod.mk.inj (hcall.symm.trans h)
    exact ⟨alike_later d, rfl⟩

lemma read_cases {reading : Reading}
    (h : (Storage.read path : StateM Disk Reading) d = (reading, d')) :
    Alike d d' ∧ d'.faults = d.faults ∧ (reading = .failed ∨ reading = d.read path) := by
  obtain hcall | hcall := call_eq_or Reading.failed (fun d => (d.read path, d)) d
  · obtain ⟨rfl, rfl⟩ := Prod.mk.inj (hcall.symm.trans h)
    exact ⟨alike_later d, rfl, Or.inl rfl⟩
  · obtain ⟨rfl, rfl⟩ := Prod.mk.inj (hcall.symm.trans h)
    exact ⟨alike_later d, rfl, Or.inr ((alike_later d).read path).symm⟩

/-- A directory is created at a free place, or nothing changes. -/
lemma createDir_cases (h : (Storage.createDir path : StateM Disk Bool) d = (b, d')) :
    d'.faults = d.faults ∧ ((b = false ∧ Alike d d') ∨
      b = true ∧ ∃ place, d.locate (unslashed path) = .ok place ∧ d.get? place = none ∧
        Alike (d.set place .dir) d') := by
  obtain hcall | hcall := call_eq_or false (fun d => (d.createDir path).swap) d
  · obtain ⟨rfl, rfl⟩ := Prod.mk.inj (hcall.symm.trans h)
    exact ⟨rfl, Or.inl ⟨rfl, alike_later d⟩⟩
  · have hrun := hcall.symm.trans h
    rw [createDir, ← (alike_later d).locate] at hrun
    cases hlocate : d.locate (unslashed path) with
    | error lost =>
      rw [hlocate] at hrun
      obtain ⟨rfl, rfl⟩ := Prod.mk.inj hrun
      exact ⟨rfl, Or.inl ⟨rfl, alike_later d⟩⟩
    | ok place =>
      simp only [hlocate, ← (alike_later d).get?] at hrun
      split_ifs at hrun with hsome
      · obtain ⟨rfl, rfl⟩ := Prod.mk.inj hrun
        exact ⟨rfl, Or.inl ⟨rfl, alike_later d⟩⟩
      · obtain ⟨rfl, rfl⟩ := Prod.mk.inj hrun
        have hnone : d.get? place = none := by simpa using hsome
        have hplace := ne_nil_of_get?_ne_dir (hnone.trans_ne (by simp))
        exact ⟨rfl, Or.inr ⟨rfl, place, rfl, hnone, (alike_later d).set hplace .dir⟩⟩

section Write

variable {place : List String} (hplace : d.locate path = .ok place)
  (hdir : d.get? place ≠ some .dir)

include hplace hdir

/-- Where no directory is, a file is written. -/
lemma write_of_locate (hgo : ∀ n, d.faults.head? ≠ some (some n)) (contents : ByteArray) :
    d.write path contents = ((d.planned d.faults.tail).set place (.file contents), true) := by
  simp only [write, hplace]
  rfl

/-- A write that stops has stored what came before. -/
lemma write_of_stop {n : Nat} (hstop : d.faults.head? = some (some n)) (contents : ByteArray) :
    d.write path contents =
      ((d.planned d.faults.tail).set place (.file (contents.extract 0 n)), false) := by
  simp only [write, hplace, hstop]
  rfl

end Write

lemma write_cases {contents : ByteArray}
    (h : (Storage.write path contents : StateM Disk Bool) d = (b, d')) :
    (b = false ∧ Alike d d' ∧ d'.faults = d.faults) ∨
      ∃ place, d.locate path = .ok place ∧ d.get? place ≠ some .dir ∧ d'.faults = d.faults.tail ∧
        ((b = true ∧ Alike (d.set place (.file contents)) d') ∨
          ∃ n, b = false ∧ d.faults.head? = some (some n) ∧
            Alike (d.set place (.file (contents.extract 0 n))) d') := by
  obtain hcall | hcall := call_eq_or false (fun d => (d.write path contents).swap) d
  · obtain ⟨rfl, rfl⟩ := Prod.mk.inj (hcall.symm.trans h)
    exact Or.inl ⟨rfl, alike_later d, rfl⟩
  have hrun := hcall.symm.trans h
  cases hlocate : d.locate path with
  | error lost =>
    rw [write, ← (alike_later d).locate, hlocate] at hrun
    obtain ⟨rfl, rfl⟩ := Prod.mk.inj hrun
    exact Or.inl ⟨rfl, alike_later d, rfl⟩
  | ok place =>
    have hlocate' := (alike_later d).locate path ▸ hlocate
    by_cases hdir : d.get? place = some .dir
    · have hdir' := (alike_later d).get? place ▸ hdir
      simp only [write, hlocate', hdir'] at hrun
      obtain ⟨rfl, rfl⟩ := Prod.mk.inj hrun
      exact Or.inl ⟨rfl, alike_later d, rfl⟩
    · have hset : ∀ e, Alike (d.set place e) ((d.later.planned d.faults.tail).set place e) :=
        ((alike_later d).trans (alike_planned _ _)).set (ne_nil_of_get?_ne_dir hdir)
      have hdir' := (alike_later d).get? place ▸ hdir
      refine Or.inr ⟨place, rfl, hdir, ?_⟩
      by_cases hstop : ∃ n, d.faults.head? = some (some n)
      · obtain ⟨n, hstop⟩ := hstop
        rw [write_of_stop hlocate' hdir' hstop] at hrun
        obtain ⟨rfl, rfl⟩ := Prod.mk.inj hrun
        exact ⟨rfl, Or.inr ⟨n, rfl, hstop, hset _⟩⟩
      · rw [write_of_locate hlocate' hdir' fun n hn => hstop ⟨n, hn⟩] at hrun
        obtain ⟨rfl, rfl⟩ := Prod.mk.inj hrun
        exact ⟨rfl, Or.inl ⟨rfl, hset _⟩⟩

end Cases

section Granted

variable {d : Disk} {path : String} {place : List String}

lemma Steady.write_eq (h : d.Steady) (hpath : d.locate path = .ok place)
    (hdir : d.get? place ≠ some .dir) (contents : ByteArray) :
    ∃ d', (Storage.write path contents : StateM Disk Bool) d = (true, d') ∧
      Alike (d.set place (.file contents)) d' ∧ d'.Steady := by
  have hlater : Alike d (d.later.planned d.faults.tail) :=
    (alike_later d).trans (alike_planned _ _)
  refine ⟨(d.later.planned d.faults.tail).set place (.file contents),
    (h.call_eq false _).trans ?_, hlater.set (ne_nil_of_get?_ne_dir hdir) _,
    h.later.refusals, fun n hn => h.faults n (List.mem_of_mem_tail hn)⟩
  rw [write_of_locate ((alike_later d).locate path ▸ hpath) ((alike_later d).get? place ▸ hdir)]
  · rfl
  · exact fun n hn => h.faults n (List.mem_of_mem_head? hn)

lemma Steady.removeFile_eq (h : d.Steady) (hpath : d.locate path = .ok place)
    {contents : ByteArray} (hfile : d.get? place = some (.file contents)) :
    ∃ d', (Storage.removeFile path : StateM Disk Bool) d = (true, d') ∧
      Alike (d.erase place) d' ∧ d'.Steady := by
  have hplace : place ≠ [] := ne_nil_of_get?_ne_dir (hfile.trans_ne (by simp))
  refine ⟨d.later.erase place, (h.call_eq false _).trans ?_, (alike_later d).erase hplace,
    h.later.refusals, h.faults⟩
  rw [(alike_later d).locate] at hpath
  rw [(alike_later d).get?] at hfile
  simp only [removeFile, hpath, hfile]
  rfl

/-- A directory with something in it stays. -/
lemma Steady.removeDir_eq_of_occupied (h : d.Steady) (hpath : d.locate path = .ok place)
    (hoccupied : d.isOccupied place = true) :
    ∃ b, (Storage.removeDir path : StateM Disk Bool) d = (b, d.later) := by
  rw [(alike_later d).locate] at hpath
  have hoccupied' : d.later.isOccupied place = true := hoccupied
  refine ⟨((d.later.removeDir path).2), (h.call_eq false _).trans ?_⟩
  simp only [removeDir, hpath, hoccupied', Bool.or_true, if_true]
  split <;> rfl

lemma Steady.removeDir_eq (h : d.Steady) (hpath : d.locate path = .ok place) (hplace : place ≠ [])
    (hdir : d.get? place = some .dir) (hfree : d.isOccupied place = false) :
    (Storage.removeDir path : StateM Disk Bool) d = (true, d.later.erase place) := by
  refine (h.call_eq false _).trans ?_
  rw [(alike_later d).locate] at hpath
  rw [(alike_later d).get?] at hdir
  have hfree' : d.later.isOccupied place = false := hfree
  simp only [removeDir, hpath, hdir, hfree', List.isEmpty_eq_false_iff.2 hplace, Bool.or_false,
    Bool.false_eq_true, if_false]
  rfl

end Granted

end Disk

/-! ## What a journal stands for -/

/-- The path of a file that was written. -/
def Reversal.path : Reversal → String
  | .created path | .replaced path _ => path

/-- What was at that path before. -/
def Reversal.previous : Reversal → Option Entry
  | .created _ => none
  | .replaced _ contents => some (.file contents)

lemma Reversal.previous_ne_dir (u : Reversal) : u.previous ≠ some .dir := by
  cases u <;> simp [Reversal.previous]

/-- The directories, the latest first, were created one by one, each at a free place. -/
inductive DirsAdded (d₀ : Disk) : List String → Disk → Prop where
  | start {d : Disk} (h : Alike d₀ d) : DirsAdded d₀ [] d
  | add {dirs : List String} {d d' : Disk} {path : String} {place : List String}
      (h : DirsAdded d₀ dirs d) (hpath : d.locate path = .ok place) (hfree : d.get? place = none)
      (hd' : Alike (d.set place .dir) d') : DirsAdded d₀ (path :: dirs) d'

/-- The files, the latest first, were written one by one, with a record of what was there before. -/
inductive FilesChanged (d₁ : Disk) : List Reversal → Disk → Prop where
  | start {d : Disk} (h : Alike d₁ d) : FilesChanged d₁ [] d
  | write {files : List Reversal} {d d' : Disk} {u : Reversal} {place : List String}
      {contents : ByteArray} (h : FilesChanged d₁ files d) (hpath : d.locate u.path = .ok place)
      (hwas : d.get? place = u.previous) (hd' : Alike (d.set place (.file contents)) d') :
      FilesChanged d₁ (u :: files) d'

/-- The disk comes from `d₀` by creating the directories of the journal and then writing its
files. -/
def Undoable (d₀ : Disk) (journal : Journal) (d : Disk) : Prop :=
  ∃ d₁, DirsAdded d₀ journal.directories d₁ ∧ FilesChanged d₁ journal.files d

section Chains

variable {d₀ d₁ d d' : Disk} {dirs : List String} {files : List Reversal}

lemma FilesChanged.alike (h : FilesChanged d₁ files d) (hd : Alike d d') :
    FilesChanged d₁ files d' := by
  cases h with
  | start h => exact .start (h.trans hd)
  | write h hpath hwas hd' => exact .write h hpath hwas (hd'.trans hd)

lemma DirsAdded.wellFormed (h : DirsAdded d₀ dirs d) (hd₀ : d₀.WellFormed) : d.WellFormed := by
  induction h with
  | start h => exact h.wellFormed hd₀
  | add _ hpath hfree hd' ih => exact ih.of_set hpath (hfree.trans_ne (by simp)) hd'

lemma FilesChanged.wellFormed (h : FilesChanged d₁ files d) (hd₁ : d₁.WellFormed) :
    d.WellFormed := by
  induction h with
  | start h => exact h.wellFormed hd₁
  | @write _ _ _ u _ _ _ hpath hwas hd' ih =>
    exact ih.of_set hpath (hwas.trans_ne u.previous_ne_dir) hd'

/-- Writing a file keeps the directories. -/
lemma keeps_of_write {u : Reversal} {place : List String} {contents : ByteArray}
    (hwas : d.get? place = u.previous) (hd' : Alike (d.set place (.file contents)) d') :
    Keeps d d' :=
  keeps_of_set (hwas.trans_ne u.previous_ne_dir) hd'

/-- Writing a file changes what is at its place. -/
lemma get?_of_write {u : Reversal} {place : List String} {contents : ByteArray}
    (hwas : d.get? place = u.previous) (hd' : Alike (d.set place (.file contents)) d')
    (names : List String) :
    d'.get? names = if names = place then some (.file contents) else d.get? names := by
  have hdir : d.get? place ≠ some .dir := hwas.trans_ne u.previous_ne_dir
  rw [← hd'.get?, get?_set (ne_nil_of_get?_ne_dir hdir)]

/-- Writing files neither adds nor removes directories. -/
lemma FilesChanged.isDir_iff (h : FilesChanged d₁ files d) (place : List String) :
    d₁.get? place = some .dir ↔ d.get? place = some .dir := by
  induction h with
  | start h => rw [h.get?]
  | @write files d d' u place' contents _ _ hwas hd' ih =>
    rw [ih, get?_of_write hwas hd']
    split_ifs with heq
    · simp [heq, hwas, u.previous_ne_dir]
    · rfl

lemma FilesChanged.workingDir (h : FilesChanged d₁ files d) : d₁.workingDir = d.workingDir := by
  induction h with
  | start h => exact h.workingDir
  | write _ _ _ hd' ih => exact ih.trans hd'.workingDir

lemma FilesChanged.keeps_back (h : FilesChanged d₁ files d) : Keeps d d₁ :=
  ⟨fun place => (h.isDir_iff place).2, h.workingDir.symm⟩

/-- A place that has no entry had none before. -/
lemma FilesChanged.none_before (h : FilesChanged d₁ files d) {place : List String}
    (hnone : d.get? place = none) : d₁.get? place = none := by
  induction h with
  | start h => rw [h.get?, hnone]
  | write _ _ hwas hd' ih =>
    rw [get?_of_write hwas hd'] at hnone
    split_ifs at hnone
    exact ih hnone

/-- Where the written files are there are files. -/
lemma FilesChanged.exists_file (h : FilesChanged d₁ files d) {u : Reversal} (hu : u ∈ files) :
    ∃ place contents, d.locate u.path = .ok place ∧ d.get? place = some (.file contents) := by
  induction h with
  | start h => cases hu
  | @write files d d' u' place' contents' _ hpath hwas hd' ih =>
    have hkeeps := keeps_of_write hwas hd'
    obtain rfl | hu := List.mem_cons.1 hu
    · refine ⟨place', contents', locate_keeps hkeeps hpath, ?_⟩
      rw [get?_of_write hwas hd', if_pos rfl]
    · obtain ⟨place, contents, hplace, hfile⟩ := ih hu
      by_cases heq : place = place'
      · refine ⟨place, contents', locate_keeps hkeeps hplace, ?_⟩
        rw [get?_of_write hwas hd', if_pos heq]
      · refine ⟨place, contents, locate_keeps hkeeps hplace, ?_⟩
        rw [get?_of_write hwas hd', if_neg heq, hfile]

/-- What is put at a place that none of the files has could have been put there before them. -/
lemma FilesChanged.set (h : FilesChanged d₁ files d) {place : List String}
    (hdir : d.get? place ≠ some .dir) (hother : ∀ u ∈ files, d.locate u.path ≠ .ok place)
    (e : Entry) : FilesChanged (d₁.set place e) files (d.set place e) := by
  have hplace := ne_nil_of_get?_ne_dir hdir
  induction h with
  | start h => exact .start (h.set hplace e)
  | @write files d d' u place' contents h hpath hwas hd' ih =>
    have hplace' := ne_nil_of_get?_ne_dir (hwas.trans_ne u.previous_ne_dir)
    have hkeeps := keeps_of_write hwas hd'
    have hbefore : d.get? place ≠ some .dir := fun hd => hdir (hkeeps.isDir place hd)
    obtain ⟨hfirst, hother⟩ := List.forall_mem_cons.1 hother
    have hne : place' ≠ place := by
      rintro rfl
      exact hfirst (locate_keeps hkeeps hpath)
    refine .write (ih hbefore fun u hu hlocate => hother u hu (locate_keeps hkeeps hlocate))
      (locate_keeps (keeps_of_set hbefore (.refl _)) hpath) ?_
      ((alike_set_set hplace hplace' hne.symm e _).trans (hd'.set hplace e))
    rw [get?_set hplace, if_neg hne, hwas]

end Chains

/-! ## Steps of a run -/

section Steps

variable {d₀ d d' : Disk} {journal : Journal}

lemma Undoable.empty (d₀ : Disk) : Undoable d₀ .empty d₀ :=
  ⟨d₀, .start (.refl d₀), .start (.refl d₀)⟩

lemma Undoable.alike (h : Undoable d₀ journal d) (hd : Alike d d') : Undoable d₀ journal d' := by
  obtain ⟨d₁, hdirs, hfiles⟩ := h
  exact ⟨d₁, hdirs, hfiles.alike hd⟩

lemma Undoable.wellFormed (h : Undoable d₀ journal d) (hd₀ : d₀.WellFormed) : d.WellFormed := by
  obtain ⟨d₁, hdirs, hfiles⟩ := h
  exact hfiles.wellFormed (hdirs.wellFormed hd₀)

/-- A directory that is created goes before the files. -/
lemma Undoable.addDir (h : Undoable d₀ journal d) {path : String} {place : List String}
    (hpath : d.locate path = .ok place) (hfree : d.get? place = none)
    (hd' : Alike (d.set place .dir) d') :
    Undoable d₀ { journal with directories := path :: journal.directories } d' := by
  obtain ⟨d₁, hdirs, hfiles⟩ := h
  have hother : ∀ u ∈ journal.files, d.locate u.path ≠ .ok place := by
    intro u hu hlocate
    obtain ⟨place', contents, hplace', hfile⟩ := hfiles.exists_file hu
    obtain rfl := Except.ok.inj (hlocate.symm.trans hplace')
    rw [hfree] at hfile
    cases hfile
  refine ⟨d₁.set place .dir, .add hdirs (locate_keeps hfiles.keeps_back hpath)
    (hfiles.none_before hfree) (.refl _), FilesChanged.alike ?_ hd'⟩
  exact hfiles.set (hfree.trans_ne (by simp)) hother .dir

lemma Undoable.addFile (h : Undoable d₀ journal d) {u : Reversal} {place : List String}
    {contents : ByteArray} (hpath : d.locate u.path = .ok place)
    (hwas : d.get? place = u.previous) (hd' : Alike (d.set place (.file contents)) d') :
    Undoable d₀ { journal with files := u :: journal.files } d' := by
  obtain ⟨d₁, hdirs, hfiles⟩ := h
  exact ⟨d₁, hdirs, .write hfiles hpath hwas hd'⟩

end Steps

/-! ## Taking back -/

/-- Taking back a written file puts back what was at its place. -/
lemma Reversal.run_eq {u : Reversal} {place : List String} {contents : ByteArray} {before d : Disk}
    (hpath : before.locate u.path = .ok place) (hwas : before.get? place = u.previous)
    (hd : Alike (before.set place (.file contents)) d) (hsteady : d.Steady) :
    ∃ d', (u.run : StateM Disk Unit) d = ((), d') ∧ Alike before d' ∧ d'.Steady := by
  have hplace := ne_nil_of_get?_ne_dir (hwas.trans_ne u.previous_ne_dir)
  have hlocate : d.locate u.path = .ok place := locate_keeps (keeps_of_write hwas hd) hpath
  have hfile : d.get? place = some (.file contents) := by
    rw [get?_of_write hwas hd, if_pos rfl]
  cases u with
  | created path =>
    obtain ⟨d', hrun, halike, hsteady'⟩ := hsteady.removeFile_eq hlocate hfile
    refine ⟨d', bind_eq hrun, Alike.trans ?_ halike, hsteady'⟩
    exact (alike_erase_set hplace hwas _).symm.trans (hd.erase hplace)
  | replaced path previous =>
    obtain ⟨d', hrun, halike, hsteady'⟩ :=
      hsteady.write_eq hlocate (hfile.trans_ne (by simp)) previous
    refine ⟨d', bind_eq hrun, Alike.trans ?_ halike, hsteady'⟩
    exact (alike_set_of_get? hplace hwas _).symm.trans (hd.set hplace _)

/-- Taking back the files gives the disk before them. -/
theorem undoFiles_run {d₁ d : Disk} {files : List Reversal} (h : FilesChanged d₁ files d)
    (hd : d.Steady) :
    ∃ d', (undoFiles files : StateM Disk Unit) d = ((), d') ∧ Alike d₁ d' ∧ d'.Steady := by
  induction files generalizing d with
  | nil =>
    cases h with
    | start h => exact ⟨d, rfl, h, hd⟩
  | cons u files ih =>
    cases h with
    | write h hpath hwas hd' =>
      obtain ⟨d', hrun, halike, hsteady⟩ := u.run_eq hpath hwas hd' hd
      obtain ⟨d'', hrest, halike', hsteady'⟩ := ih (h.alike halike) hsteady
      exact ⟨d'', (bind_eq hrun).trans hrest, halike', hsteady'⟩

/-- What stays when directories are removed: a file, if there is one, and all directories above
it. -/
def kept : Option (List String × ByteArray) → List String → Option Entry
  | none, _ => none
  | some (place, contents), names =>
    if names = place then some (.file contents) else if names <+: place then some .dir else none

lemma kept_below {left : Option (List String × ByteArray)} {place names : List String}
    (hpre : place <+: names) (h : kept left place = none) : kept left names = none := by
  obtain _ | ⟨last, contents⟩ := left
  · rfl
  · have hprefix : ¬ place <+: last := by
      intro hprefix
      simp only [kept, if_pos hprefix] at h
      split_ifs at h
    have hnames : ¬ names <+: last := fun hnames => hprefix (hpre.trans hnames)
    have hne : names ≠ last := fun heq => hnames (heq ▸ List.prefix_rfl)
    simp only [kept, if_neg hne, if_neg hnames]

lemma exists_kept_below {left : Option (List String × ByteArray)} {place : List String}
    (h : kept left place = some .dir) :
    ∃ names, names ≠ place ∧ place <+: names ∧ kept left names ≠ none := by
  obtain _ | ⟨last, contents⟩ := left
  · cases h
  · simp only [kept] at h
    split_ifs at h with hplace hprefix
    · cases h
    · exact ⟨last, Ne.symm hplace, hprefix, by simp [kept]⟩

/-- The disk `s` has what is kept, and for the rest what `d` has. -/
structure Holds (left : Option (List String × ByteArray)) (d s : Disk) : Prop where
  get? : ∀ names, s.get? names = (kept left names).or (d.get? names)
  workingDir : d.workingDir = s.workingDir
  /-- No directory has to give way. -/
  notDir : ∀ names contents, kept left names = some (.file contents) → d.get? names ≠ some .dir

section RemoveDirs

variable {left : Option (List String × ByteArray)} {d d' s s' : Disk}

lemma Holds.alike (h : Holds left d s) (hd : Alike d' d) (hs : Alike s s') : Holds left d' s' where
  get? names := by rw [← hs.get?, h.get?, hd.get?]
  workingDir := hd.workingDir.trans (h.workingDir.trans hs.workingDir)
  notDir names contents hkept := by
    rw [hd.get?]
    exact h.notDir names contents hkept

lemma Holds.keeps (h : Holds left d s) : Keeps d s := by
  refine ⟨fun place hdir => ?_, h.workingDir⟩
  rw [h.get?]
  cases hkept : kept left place with
  | none => exact hdir
  | some e =>
    cases e with
    | file contents => exact absurd hdir (h.notDir place contents hkept)
    | dir => rfl

/-- Removing the directory that was created last, if nothing kept is in it. -/
lemma Holds.removeDir {path : String} {place : List String} (hwell : d.WellFormed)
    (hpath : d.locate path = .ok place) (hfree : d.get? place = none)
    (h : Holds left (d.set place .dir) s) (hs : s.Steady) :
    ∃ b s', (Storage.removeDir path : StateM Disk Bool) s = (b, s') ∧ Holds left d s' ∧
      s'.Steady := by
  have hnotDir : d.get? place ≠ some .dir := hfree.trans_ne (by simp)
  have hplace := ne_nil_of_get?_ne_dir hnotDir
  have hkeeps : Keeps d (d.set place .dir) := keeps_of_set hnotDir (.refl _)
  have hlocate : s.locate path = .ok place := locate_keeps (hkeeps.trans h.keeps) hpath
  have hdir : s.get? place = some .dir :=
    h.keeps.isDir place (by rw [get?_set hplace, if_pos rfl])
  have hnotDir' : ∀ names contents, kept left names = some (.file contents) →
      d.get? names ≠ some .dir := fun names contents hkept hdir =>
    h.notDir names contents hkept (hkeeps.isDir names hdir)
  cases hkept : kept left place with
  | some e =>
    have he : e = .dir := by
      have hget := h.get? place
      rw [hdir, hkept] at hget
      exact (Option.some.inj hget).symm
    have hoccupied : s.isOccupied place = true := by
      obtain ⟨names, hne, hpre, hsome⟩ := exists_kept_below (he ▸ hkept)
      refine isOccupied_iff.2 ⟨names, hne, hpre, ?_⟩
      rw [h.get?, Option.or_of_isSome (Option.isSome_iff_ne_none.2 hsome)]
      exact hsome
    obtain ⟨b, hrun⟩ := hs.removeDir_eq_of_occupied hlocate hoccupied
    refine ⟨b, s.later, hrun, ⟨fun names => ?_, h.workingDir, hnotDir'⟩, hs.later⟩
    rw [← (alike_later s).get?, h.get?, get?_set hplace]
    split_ifs with hnames
    · rw [hnames, hkept]
      rfl
    · rfl
  | none =>
    have hunoccupied : s.isOccupied place = false := by
      refine Bool.eq_false_iff.2 fun hoccupied => ?_
      obtain ⟨names, hne, hpre, hsome⟩ := isOccupied_iff.1 hoccupied
      rw [h.get?, kept_below hpre hkept, get?_set hplace, if_neg hne] at hsome
      exact hsome (hwell.none_below hfree hpre)
    refine ⟨true, s.later.erase place, hs.removeDir_eq hlocate hplace hdir hunoccupied,
      ⟨fun names => ?_, h.workingDir, hnotDir'⟩, hs.later.refusals, hs.faults⟩
    rw [get?_erase hplace, ← (alike_later s).get?, h.get?, get?_set hplace]
    split_ifs with hnames
    · rw [hnames, hkept, hfree]
      rfl
    · rfl

/-- Removing the created directories leaves what is kept, and for the rest the disk before them. -/
theorem removeDirs_run {d₀ : Disk} (hd₀ : d₀.WellFormed) {dirs : List String}
    (h : DirsAdded d₀ dirs d) (hholds : Holds left d s) (hs : s.Steady) :
    ∃ s', (removeDirs dirs : StateM Disk Unit) s = ((), s') ∧ Holds left d₀ s' := by
  induction h generalizing s with
  | start h => exact ⟨s, rfl, hholds.alike h (.refl s)⟩
  | add h hpath hfree hd' ih =>
    obtain ⟨b, s', hrun, hholds', hs'⟩ :=
      (hholds.alike hd' (.refl s)).removeDir (h.wellFormed hd₀) hpath hfree hs
    obtain ⟨s'', hrest, hholds''⟩ := ih hholds' hs'
    exact ⟨s'', (bind_eq hrun).trans hrest, hholds''⟩

end RemoveDirs

/-- Taking back all that the journal has restores the disk. -/
theorem Undoable.takeBack {d₀ d : Disk} {journal : Journal} (hd₀ : d₀.WellFormed)
    (h : Undoable d₀ journal d) (hd : d.Steady) :
    ∃ d', (journal.takeBack : StateM Disk Unit) d = ((), d') ∧ Alike d₀ d' := by
  obtain ⟨d₁, hdirs, hfiles⟩ := h
  obtain ⟨s, hrun, halike, hs⟩ := undoFiles_run hfiles hd
  have hholds : Holds none d₁ s := ⟨fun names => (halike.get? names).symm, halike.workingDir, nofun⟩
  obtain ⟨s', hrest, hholds'⟩ := removeDirs_run hd₀ hdirs hholds hs
  exact ⟨s', (bind_eq hrun).trans hrest, fun names => (hholds'.get? names).symm,
    hholds'.workingDir⟩

/-- A file where a path leads is kept together with what is above it. -/
lemma Holds.of_set {d s : Disk} (hd : d.WellFormed) {path : String} {place : List String}
    {contents : ByteArray} (hpath : d.locate path = .ok place) (hdir : d.get? place ≠ some .dir)
    (hs : Alike (d.set place (.file contents)) s) : Holds (some (place, contents)) d s := by
  have hplace := ne_nil_of_get?_ne_dir hdir
  have habove : ∀ names, names <+: place → names ≠ place → d.get? names = some .dir := by
    intro names hpre hne
    have hset := (hd.of_set hpath hdir (.refl (d.set place (.file contents)))).isDir_above
      (by simp [get?_set hplace]) hpre hne
    rwa [get?_set hplace, if_neg hne] at hset
  refine ⟨fun names => ?_, hs.workingDir, fun names previous hkept => ?_⟩
  · rw [← hs.get?, get?_set hplace]
    by_cases hnames : names = place
    · simp [kept, hnames]
    · by_cases hpre : names <+: place
      · simp [kept, hnames, hpre, habove names hpre hnames]
      · simp [kept, hnames, hpre]
  · simp only [kept] at hkept
    split_ifs at hkept with hnames
    · rw [hnames]
      exact hdir
    · cases hkept

/-- A file that the journal does not have stays, with all directories above it. -/
theorem Undoable.takeBack_left {d₀ d d' : Disk} {journal : Journal} (hd₀ : d₀.WellFormed)
    (h : Undoable d₀ journal d) {place : List String} {contents : ByteArray} {path : String}
    (hpath : d.locate path = .ok place) (hdir : d.get? place ≠ some .dir)
    (hother : ∀ u ∈ journal.files, d.locate u.path ≠ .ok place)
    (hd' : Alike (d.set place (.file contents)) d') (hsteady : d'.Steady) :
    ∃ d'', (journal.takeBack : StateM Disk Unit) d' = ((), d'') ∧
      ∀ names, d''.get? names = (kept (some (place, contents)) names).or (d₀.get? names) := by
  obtain ⟨d₁, hdirs, hfiles⟩ := h
  have hdir₁ : d₁.get? place ≠ some .dir := fun hd => hdir ((hfiles.isDir_iff place).1 hd)
  have hpath₁ : d₁.locate path = .ok place := locate_keeps hfiles.keeps_back hpath
  obtain ⟨s, hrun, halike, hs⟩ := undoFiles_run ((hfiles.set hdir hother _).alike hd') hsteady
  have hholds := Holds.of_set (hdirs.wellFormed hd₀) hpath₁ hdir₁ halike
  obtain ⟨s', hrest, hholds⟩ := removeDirs_run hd₀ hdirs hholds hs
  exact ⟨s', (bind_eq hrun).trans hrest, hholds.get?⟩

end WireContract.Files
