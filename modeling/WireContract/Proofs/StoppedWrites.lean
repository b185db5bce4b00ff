import WireContract.Proofs.TreeWriting

/-!
# A write that stops halfway

A write that is refused leaves nothing behind, but one that stops after it has opened its file does:
the file is there, cut short, and what it held before is gone.  The journal has no entry for it,
since a file is noted only once it has been written.  So taking back restores all files but this
one, and the directories above it cannot be removed (`stopped_write_stays`).

Where a write stops is known from the plan of the disk, which nothing but a write looks at
(`Unplanned`).  A run with a plan is therefore compared with the run on the same disk without one:
the two go the same way until the write that stops.
-/

namespace WireContract.Files

open Disk

namespace Disk

lemma planned_of_faults {d : Disk} {faults : List (Option Nat)} (h : d.faults = faults) :
    d.planned faults = d := by
  rw [planned, ← h]

end Disk

/-! ## Programs that do not look at the plan -/

/-- What the program does and answers does not depend on the plan, which it leaves as it is. -/
def Unplanned {α : Type} (x : StateM Disk α) : Prop :=
  ∀ d faults, x (d.planned faults) = ((x d).1, (x d).2.planned faults)

namespace Unplanned

variable {α β : Type}

lemma eq {x : StateM Disk α} (h : Unplanned x) {d d' : Disk} {a : α} (hrun : x d = (a, d'))
    (faults : List (Option Nat)) : x (d.planned faults) = (a, d'.planned faults) := by
  rw [h, hrun]

lemma pure (a : α) : Unplanned (Pure.pure a) := fun _ _ => rfl

lemma bind {x : StateM Disk α} {f : α → StateM Disk β} (hx : Unplanned x)
    (hf : ∀ a, Unplanned (f a)) : Unplanned (x >>= f) := by
  intro d faults
  obtain ⟨a, d', hrun⟩ := exists_run x d
  rw [bind_eq (hx.eq hrun faults), bind_eq hrun]
  exact hf a d' faults

lemma call {refused : α} {action : Disk → α × Disk} (h : Unplanned action) :
    Unplanned (Disk.call refused action) := by
  intro d faults
  unfold Disk.call
  dsimp only
  split_ifs with hrefused hrefused' hrefused'
  · rfl
  · exact absurd hrefused hrefused'
  · exact absurd hrefused' hrefused
  · exact h { d with refusals := d.refusals.tail } faults

lemma hasEntry (path : String) : Unplanned (Storage.hasEntry path) := by
  refine call fun d faults => ?_
  simp only [Disk.hasEntry, ← (alike_planned d faults).locate, ← (alike_planned d faults).get?]

lemma read (path : String) : Unplanned (Storage.read path) := by
  refine call fun d faults => ?_
  rw [← (alike_planned d faults).read]

lemma createDir (path : String) : Unplanned (Storage.createDir path) := by
  refine call fun d faults => ?_
  simp only [Disk.createDir, ← (alike_planned d faults).locate, ← (alike_planned d faults).get?]
  split
  · rfl
  · split_ifs <;> rfl

lemma missingDirs (dirs : List String) : Unplanned (Files.missingDirs dirs) := by
  induction dirs with
  | nil => exact pure []
  | cons dir dirs ih =>
    rw [Files.missingDirs]
    split_ifs
    · exact pure []
    · refine (hasEntry dir).bind fun b => ?_
      cases b with
      | true => exact pure []
      | false => exact ih.bind fun rest => pure (dir :: rest)

lemma createEach (journal : Journal) (dirs : List String) :
    Unplanned (Files.createEach journal dirs) := by
  induction dirs generalizing journal with
  | nil => exact pure (journal, none)
  | cons dir dirs ih =>
    rw [Files.createEach]
    refine (createDir dir).bind fun b => ?_
    cases b with
    | true => exact ih _
    | false => exact pure (journal, some dir)

lemma makeParents (journal : Journal) (path : String) :
    Unplanned (Files.makeParents journal path) :=
  (missingDirs _).bind fun needed => createEach journal needed.reverse

end Unplanned

/-! ## Writes under a plan -/

section Plans

variable {d e : Disk} {journal journal' : Journal} {path : String} {contents : ByteArray}

/-- A program that writes one file, from `d` to `e` where no write stops.  Under a plan that lets
the write through it does the same; under one that stops the write it gives up at `mid`, and what it
has stored is there. -/
structure Breakable {α : Type} (x : StateM Disk α) (path : String) (contents : ByteArray)
    (d mid e : Disk) (stopped written : α) : Prop where
  faults : e.faults = []
  goes : ∀ rest, x (d.planned (none :: rest)) = (written, e.planned rest)
  stops : ∃ place, mid.locate path = .ok place ∧ mid.get? place ≠ some .dir ∧
    Alike (mid.set place (.file contents)) e ∧ ∀ n, ∃ e', x (d.planned [some n]) = (stopped, e') ∧
      e'.faults = [] ∧ Alike (mid.set place (.file (contents.extract 0 n))) e'

/-- Programs before the write do not look at the plan. -/
lemma Breakable.after {α β : Type} {x : StateM Disk α} (hx : Unplanned x)
    {f : α → StateM Disk β} {a : α} {d₁ mid : Disk} {stopped written : β} (hrun : x d = (a, d₁))
    (h : Breakable (f a) path contents d₁ mid e stopped written) :
    Breakable (x >>= f) path contents d mid e stopped written := by
  obtain ⟨place, hplace, hdir, halike, hstops⟩ := h.stops
  refine ⟨h.faults, fun rest => (bind_eq (hx.eq hrun _)).trans (h.goes rest), place, hplace, hdir,
    halike, fun n => ?_⟩
  obtain ⟨e', hstop, hfaults, hpart⟩ := hstops n
  exact ⟨e', (bind_eq (hx.eq hrun _)).trans hstop, hfaults, hpart⟩

/-- Nothing after the write matters. -/
lemma Breakable.bind_pure {α β : Type} {x : StateM Disk α} {f : α → StateM Disk β} {mid : Disk}
    {stopped written : α} {stopped' written' : β}
    (h : Breakable x path contents d mid e stopped written)
    (hstopped : f stopped = pure stopped') (hwritten : f written = pure written') :
    Breakable (x >>= f) path contents d mid e stopped' written' := by
  obtain ⟨place, hplace, hdir, halike, hstops⟩ := h.stops
  refine ⟨h.faults, fun rest => ?_, place, hplace, hdir, halike, fun n => ?_⟩
  · rw [bind_eq (h.goes rest), hwritten]
    rfl
  · obtain ⟨e', hstop, hfaults, hpart⟩ := hstops n
    refine ⟨e', ?_, hfaults, hpart⟩
    rw [bind_eq hstop, hstopped]
    rfl

/-- A write that succeeds without a plan. -/
lemma breakable_write
    (h : (Storage.write path contents : StateM Disk Bool) (d.planned []) = (true, e)) :
    Breakable (Storage.write path contents) path contents d d e false true := by
  have hgranted : d.refusals.head? ≠ some true := by
    intro hrefused
    have hcall := (call_refused (show (d.planned []).refusals.head? = some true from hrefused) false
      fun d => (d.write path contents).swap).symm.trans h
    cases hcall
  have hcall : ∀ faults, (Storage.write path contents : StateM Disk Bool) (d.planned faults) =
      ((d.later.planned faults).write path contents).swap := fun faults =>
    Disk.call_eq (show (d.planned faults).refusals.head? ≠ some true from hgranted) false _
  obtain ⟨hfalse, -⟩ | ⟨place, hplace, hdir, -⟩ := write_cases h
  · cases hfalse
  rw [← (alike_planned d []).locate] at hplace
  rw [← (alike_planned d []).get?] at hdir
  have hplaces : ∀ faults, (d.later.planned faults).locate path = .ok place ∧
      (d.later.planned faults).get? place ≠ some .dir := by
    intro faults
    have halike := (alike_later d).trans (alike_planned _ faults)
    exact ⟨halike.locate path ▸ hplace, halike.get? place ▸ hdir⟩
  have hset : ∀ stored, Alike (d.set place stored) ((d.later.planned []).set place stored) :=
    ((alike_later d).trans (alike_planned _ _)).set (ne_nil_of_get?_ne_dir hdir)
  rw [hcall, write_of_locate (hplaces []).1 (hplaces []).2 nofun] at h
  obtain ⟨-, rfl⟩ := Prod.mk.inj h
  refine ⟨rfl, fun rest => ?_, place, hplace, hdir, hset _, fun n => ⟨_, ?_, rfl, hset _⟩⟩
  · rw [hcall, write_of_locate (hplaces (none :: rest)).1 (hplaces (none :: rest)).2 nofun]
    rfl
  · rw [hcall, write_of_stop (hplaces _).1 (hplaces _).2 rfl]
    rfl

lemma breakable_writeKnown {u : Reversal}
    (h : writeKnown journal u contents (d.planned []) = ((journal', none), e)) :
    Breakable (writeKnown journal u contents) u.path contents d d e (journal, some u.path)
      (journal', none) := by
  obtain ⟨b, d₁, hwrite, h⟩ := exists_of_bind h
  cases b with
  | false => cases h
  | true =>
    obtain ⟨heq, rfl⟩ := Prod.mk.inj h
    refine (breakable_write hwrite).bind_pure rfl ?_
    rw [← heq]
    rfl

lemma breakable_writeInPlace
    (h : (writeInPlace journal path contents : StateM Disk _) (d.planned []) =
      ((journal', none), e)) :
    ∃ mid, Alike d mid ∧ Breakable (writeInPlace journal path contents) path contents d mid e
      (journal, some path) (journal', none) := by
  obtain ⟨reading, mid, hread⟩ := exists_run (Storage.read path) d
  obtain ⟨halike, -⟩ := read_cases hread
  rw [writeInPlace, bind_eq ((Unplanned.read path).eq hread [])] at h
  refine ⟨mid, halike, Breakable.after (Unplanned.read path) hread ?_⟩
  cases reading with
  | failed => cases h
  | bytes previous => exact breakable_writeKnown (u := .replaced path previous) h
  | missing => exact breakable_writeKnown (u := .created path) h

lemma breakable_writeFile
    (h : (writeFile journal path contents : StateM Disk _) (d.planned []) = ((journal', none), e)) :
    ∃ journal₁ d₁ mid, makeParents journal path d = ((journal₁, none), d₁) ∧ Alike d₁ mid ∧
      Breakable (writeFile journal path contents) path contents d mid e (journal₁, some path)
        (journal', none) := by
  obtain ⟨⟨journal₁, failed⟩, d₁, hparents⟩ := exists_run (makeParents journal path) d
  rw [writeFile_eq] at h ⊢
  rw [bind_eq ((Unplanned.makeParents journal path).eq hparents [])] at h
  cases failed with
  | some lost => cases h
  | none =>
    obtain ⟨mid, halike, hbreaks⟩ := breakable_writeInPlace h
    exact ⟨journal₁, d₁, mid, hparents, halike, hbreaks.after (Unplanned.makeParents _ _) hparents⟩

/-- Files that are written without a plan are written under one that lets as many writes through. -/
lemma writeEach_planned {files : List (String × ByteArray)}
    (h : (writeEach journal files : StateM Disk _) (d.planned []) = ((journal', none), e)) :
    e.faults = [] ∧ ∀ rest, (writeEach journal files : StateM Disk _)
      (d.planned (List.replicate files.length none ++ rest)) =
      ((journal', none), e.planned rest) := by
  induction files generalizing journal d with
  | nil =>
    obtain ⟨heq, rfl⟩ := Prod.mk.inj h
    obtain ⟨rfl, -⟩ := Prod.mk.inj heq
    exact ⟨rfl, fun rest => rfl⟩
  | cons file files ih =>
    obtain ⟨path, contents⟩ := file
    rw [writeEach_cons] at h
    obtain ⟨-, hfailed⟩ | ⟨journal₁, d₁, hfile, h⟩ := unlessFailed_cases h
    · exact absurd rfl hfailed
    obtain ⟨_, _, _, _, _, hbreaks⟩ := breakable_writeFile hfile
    rw [← planned_of_faults hbreaks.faults] at h
    obtain ⟨hfaults, hrest⟩ := ih h
    refine ⟨hfaults, fun rest => ?_⟩
    rw [writeEach_cons, List.length_cons, List.replicate_succ, List.cons_append,
      bind_eq (hbreaks.goes _)]
    exact hrest rest

end Plans

/-! ## What stays -/

lemma writeEach_append (journal : Journal) (files files' : List (String × ByteArray)) :
    writeEach journal (files ++ files') =
      writeEach journal files >>= unlessFailed (writeEach · files') := by
  funext d
  induction files generalizing journal d with
  | nil => rfl
  | cons file files ih =>
    obtain ⟨path, contents⟩ := file
    obtain ⟨⟨journal₁, failed⟩, d₁, hfile⟩ := exists_run (writeFile journal path contents) d
    rw [List.cons_append, writeEach_cons, writeEach_cons, bind_eq hfile, bind_assoc, bind_eq hfile]
    cases failed with
    | none => exact ih journal₁ d₁
    | some lost => rfl

lemma writeEach_of_writeFiles {files : List (String × ByteArray)} {d d' : Disk}
    (h : (writeFiles files : StateM Disk _) d = (none, d')) :
    ∃ journal, (writeEach .empty files : StateM Disk _) d = ((journal, none), d') := by
  obtain ⟨⟨journal, failed⟩, d₁, hwrite, hend⟩ := exists_of_bind h
  cases failed with
  | none =>
    obtain ⟨-, rfl⟩ := Prod.mk.inj hend
    exact ⟨journal, hwrite⟩
  | some lost =>
    obtain ⟨-, d₂, -, hend⟩ := exists_of_bind hend
    cases hend

/-- When the write of a file stops, all else is taken back, and the file stays as far as it was
written, with the directories above it. -/
theorem writeFiles_stopped {disk done : Disk} (hdisk : disk.WellFormed)
    {before rest : List (String × ByteArray)} {path : String} {contents : ByteArray} {n : ℕ}
    (hapart : Apart (before ++ (path, contents) :: rest))
    (hfaults : disk.faults = List.replicate before.length none ++ [some n])
    (hgranted : GrantsTakingBack (before ++ (path, contents) :: rest) disk)
    (hreached : (writeFiles (before ++ [(path, contents)]) : StateM Disk _) (disk.planned []) =
      (none, done)) :
    ∃ place after, done.locate path = .ok place ∧
      (writeFiles (before ++ (path, contents) :: rest) : StateM Disk _) disk = (some path, after) ∧
      ∀ names, after.get? names =
        (kept (some (place, contents.extract 0 n)) names).or (disk.get? names) := by
  -- the run without a plan
  obtain ⟨journal', hwritten⟩ := writeEach_of_writeFiles hreached
  rw [writeEach_append] at hwritten
  obtain ⟨-, hfailed⟩ | ⟨journal₁, d₁, hbefore, hwritten⟩ := unlessFailed_cases hwritten
  · exact absurd rfl hfailed
  rw [writeEach_cons] at hwritten
  obtain ⟨-, hfailed⟩ | ⟨journal₂, d₂, hfile, hwritten⟩ := unlessFailed_cases hwritten
  · exact absurd rfl hfailed
  obtain ⟨-, rfl⟩ := Prod.mk.inj hwritten
  obtain ⟨hfaults₁, hplanned⟩ := writeEach_planned hbefore
  obtain ⟨hbeforeApart, -, hcross⟩ := List.pairwise_append.1 hapart
  have hundo : Undoable disk .empty (disk.planned []) :=
    (Undoable.empty disk).alike (alike_planned disk [])
  obtain ⟨hadvances, -⟩ := writeEach_run hdisk hbeforeApart rfl hundo hbefore
  rw [← planned_of_faults hfaults₁] at hfile
  obtain ⟨journal₃, d₃, mid, hparents, halike, hbreaks⟩ := breakable_writeFile hfile
  obtain ⟨hadvances', -⟩ := makeParents_run hdisk hadvances.undoable hparents
  obtain ⟨place, hplace, hdir, hfull, hstops⟩ := hbreaks.stops
  obtain ⟨e, hstop, hfaults', hpart⟩ := hstops n
  -- the run under the plan
  have hrun : (writeEach .empty (before ++ (path, contents) :: rest) : StateM Disk _) disk =
      ((journal₃, some path), e) := by
    have hfirst := hplanned [some n]
    rw [← hfaults, planned_of_faults rfl] at hfirst
    rw [writeEach_append, bind_eq hfirst]
    change (writeEach journal₁ ((path, contents) :: rest) : StateM Disk _) (d₁.planned [some n]) = _
    rw [writeEach_cons, bind_eq hstop]
    rfl
  have hsteady : e.Steady := ⟨hgranted journal₃ path e hrun, by simp [hfaults']⟩
  have hother : ∀ u ∈ journal₃.files, mid.locate u.path ≠ .ok place := by
    intro u hu
    obtain hu | hu := hadvances'.files u hu
    · obtain hu | hu := hadvances.files u hu
      · cases hu
      · obtain ⟨file, hmem, hpath⟩ := List.mem_map.1 hu
        rw [← hpath]
        exact fun hsame => hcross file hmem _ List.mem_cons_self mid place hsame hplace
    · cases hu
  obtain ⟨after, hback, hafter⟩ :=
    (hadvances'.undoable.alike halike).takeBack_left hdisk hplace hdir hother hpart hsteady
  exact ⟨place, after, locate_keeps (keeps_of_set hdir hfull) hplace,
    writeFiles_of_failed hrun hback, hafter⟩

end WireContract.Files

namespace WireContract.Emit

open Files Schema

/-- When the write of a file of the tree stops after some bytes, and every other call goes through,
the path of the file is reported.  All else is as before, but the file holds these bytes, and the
directories above it stay: the disk is as it was only if the file held just these bytes. -/
theorem stopped_write_stays (doc : Document) (c : Contract) (h : Contract.ofDocument doc = .ok c)
    (o : Options) (f : Forest) (hf : emit c o = .ok f) (dir : String) (disk after done : Disk)
    (hdisk : disk.WellFormed) (i n : ℕ) (path : String) (contents : ByteArray)
    (hfile : (f.filesIn dir)[i]? = some (path, contents))
    (hfaults : disk.faults = List.replicate i none ++ [some n])
    (hgranted : GrantsTakingBack (f.filesIn dir) disk)
    (hreached : (writeFiles ((f.filesIn dir).take (i + 1)) : StateM Disk _).run
      { disk with faults := [] } = (none, done)) (outcome : Except EmitError (List String))
    (hrun : (f.writeUnder dir : StateM Disk _).run disk = (outcome, after)) :
    outcome = .error (.unwritable path) ∧ ∃ place, done.locate path = .ok place ∧
      (∀ names, after.get? names =
        if names = place then some (.file (contents.extract 0 n))
        else if names <+: place then some .dir else disk.get? names) ∧
      ((∀ names, after.get? names = disk.get? names) ↔
        disk.get? place = some (.file (contents.extract 0 n))) := by
  have hapart := apart_filesIn (Contract.of_ofDocument h) hf dir
  obtain ⟨hi, hget⟩ := List.getElem?_eq_some_iff.1 hfile
  have hsplit : f.filesIn dir =
      (f.filesIn dir).take i ++ (path, contents) :: (f.filesIn dir).drop (i + 1) := by
    rw [← hget, List.getElem_cons_drop, List.take_append_drop]
  have htake : (f.filesIn dir).take (i + 1) = (f.filesIn dir).take i ++ [(path, contents)] := by
    rw [List.take_add_one, hfile]
    rfl
  have hlength : ((f.filesIn dir).take i).length = i := List.length_take_of_le hi.le
  rw [htake] at hreached
  rw [hsplit] at hapart hgranted
  obtain ⟨place, left, hplace, hwrite, hleft⟩ :=
    writeFiles_stopped hdisk hapart (hlength.symm ▸ hfaults) hgranted hreached
  rw [← hsplit] at hwrite
  obtain ⟨rfl, rfl⟩ := Prod.mk.inj ((Forest.writeUnder_of_failed hwrite).symm.trans hrun)
  have hafter : ∀ names, left.get? names =
      if names = place then some (.file (contents.extract 0 n))
      else if names <+: place then some .dir else disk.get? names := by
    intro names
    rw [hleft, kept]
    split_ifs <;> rfl
  refine ⟨rfl, place, hplace, hafter, fun hsame => ?_, fun hheld names => ?_⟩
  · rw [← hsame, hafter, if_pos rfl]
  · rw [hafter]
    split_ifs with hnames hpre
    · rw [hnames, hheld]
    · exact (hdisk.isDir_above (hheld.trans_ne (by simp)) hpre hnames).symm
    · rfl

/-- A disk on which the second write stops after two bytes. -/
def cutDisk : Disk := blockedDisk.planned [none, some 2]

/-- The first file is taken back, but the second keeps two bytes of what it was to hold. -/
theorem stopped_write_stays_oneInk :
    ∃ c f contents after, Contract.ofDocument oneInk = .ok c ∧ emit c {} = .ok f ∧
      (f.filesIn "out")[1]? = some ("out/ink/mod.rs", contents) ∧
      (f.writeUnder "out" : StateM Disk _).run cutDisk =
        (.error (.unwritable "out/ink/mod.rs"), after) ∧
      after.get? ["out", "mod.rs"] = none ∧
      after.get? ["out", "ink", "mod.rs"] = some (.file (contents.extract 0 2)) := by
  have hruns :
      ((Contract.ofDocument oneInk).toOption.bind fun c => (emit c {}).toOption.map fun f =>
      let run := (writeFiles ((f.filesIn "out").take 2) : StateM Disk _) blockedDisk
      ((f.filesIn "out")[1]?.map (·.1), run.1, (run.2.locate "out/ink/mod.rs").toOption,
        ((writeEach .empty (f.filesIn "out") : StateM Disk _) cutDisk).2.refusals)) =
      some (some "out/ink/mod.rs", none, some ["out", "ink", "mod.rs"], []) := by
    decide +kernel
  obtain ⟨c, f, hc, hf⟩ : ∃ c f, Contract.ofDocument oneInk = .ok c ∧ emit c {} = .ok f :=
    exists_emit_ok isOk_oneInk (by decide +kernel) (by decide +kernel)
  simp only [hc, hf, Except.toOption, Option.bind_some, Option.map_some, Option.some.injEq,
    Prod.mk.injEq] at hruns
  obtain ⟨hsecond, hreached, hlocated, hrefusals⟩ := hruns
  obtain ⟨⟨path, contents⟩, hfile, rfl⟩ := Option.map_eq_some_iff.1 hsecond
  have hdone := Prod.fst_eq_iff.1 hreached
  obtain ⟨outcome, after, hrun⟩ := Disk.exists_run (f.writeUnder "out") cutDisk
  have hwell : cutDisk.WellFormed := (Disk.alike_planned _ _).wellFormed wellFormed_blockedDisk
  obtain ⟨rfl, place, hplace, hafter, -⟩ :=
    stopped_write_stays oneInk c hc {} f hf "out" cutDisk after
    _ hwell 1 2 _ contents hfile rfl (grantsTakingBack_of_refusals hrefusals) hdone outcome hrun
  rw [hplace] at hlocated
  obtain rfl := Option.some.inj hlocated
  refine ⟨c, f, contents, after, hc, hf, hfile, hrun, ?_, by rw [hafter, if_pos rfl]⟩
  rw [hafter, if_neg (by decide), if_neg (by decide)]
  rfl

/-- On an empty disk where the first write stops at once, an empty file and its directory stay. -/
theorem stopped_write_not_undone :
    ∃ c f after, Contract.ofDocument oneInk = .ok c ∧ emit c {} = .ok f ∧
      (f.writeUnder "out" : StateM Disk _).run { Disk.empty with faults := [some 0] } =
        (.error (.unwritable "out/mod.rs"), after) ∧
      after.get? ["out", "mod.rs"] ≠ none ∧ after.get? ["out"] ≠ none ∧
      Disk.empty.get? ["out", "mod.rs"] = none ∧ Disk.empty.get? ["out"] = none := by
  have hruns :
      ((Contract.ofDocument oneInk).toOption.bind fun c => (emit c {}).toOption.map fun f =>
      let run := (writeFiles (f.filesIn "out") : StateM Disk _)
        { Disk.empty with faults := [some 0] }
      (run.1, (run.2.get? ["out", "mod.rs"]).isSome, (run.2.get? ["out"]).isSome)) =
      some (some "out/mod.rs", true, true) := by
    decide +kernel
  obtain ⟨c, f, hc, hf⟩ : ∃ c f, Contract.ofDocument oneInk = .ok c ∧ emit c {} = .ok f :=
    exists_emit_ok isOk_oneInk (by decide +kernel) (by decide +kernel)
  simp only [hc, hf, Except.toOption, Option.bind_some, Option.map_some, Option.some.injEq,
    Prod.mk.injEq] at hruns
  obtain ⟨hfailed, hleft, habove⟩ := hruns
  refine ⟨c, f, _, hc, hf, Forest.writeUnder_of_failed (Prod.fst_eq_iff.1 hfailed),
    Option.isSome_iff_ne_none.1 hleft, Option.isSome_iff_ne_none.1 habove, rfl, rfl⟩

end WireContract.Emit
