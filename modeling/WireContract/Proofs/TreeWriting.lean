import WireContract.Emit.Write
import WireContract.Proofs.FileWriting
import WireContract.Proofs.PathResolution

/-!
# Writing the tree of a contract

The files of a tree have distinct paths, and the names in these paths lead down: module names are
identifiers, and file names end in an extension.  So no two files meet in one place, whatever the
directory they are written to, and writing the tree succeeds as a whole or leaves the disk as it was
(`written_whole_or_not`).  What lets it fail is not restricted: calls may be refused at any point,
and anything may stand where a file or a directory is to go.
-/

namespace WireContract.Emit

open Files Schema

namespace Forest

/-! ## Distinct paths -/

lemma exists_path_of_mem_filesUnder {f : Forest} {dir : List String} {t : TreeFile}
    (ht : t ∈ f.filesUnder dir) : ∃ name ∈ f.names, ∃ rest ≠ [], t.path = dir ++ name :: rest := by
  induction f generalizing dir with
  | nil => cases ht
  | cons name files below rest ihbelow ihrest =>
    simp only [filesUnder, List.cons_append, List.mem_cons, List.mem_append, List.mem_map] at ht
    obtain rfl | (⟨s, -, rfl⟩ | ht) | ht := ht
    · exact ⟨name, List.mem_cons_self, [moduleFileName], by simp, by simp⟩
    · exact ⟨name, List.mem_cons_self, [s.group.stem ++ ".rs"], by simp, by simp⟩
    · obtain ⟨next, -, tail, -, hpath⟩ := ihbelow ht
      exact ⟨name, List.mem_cons_self, next :: tail, by simp, by simp [hpath]⟩
    · obtain ⟨other, hother, tail, htail, hpath⟩ := ihrest ht
      exact ⟨other, List.mem_cons_of_mem _ hother, tail, htail, hpath⟩

/-- The files of a package beside its module file. -/
lemma nodup_paths_of_package (here : List String) {files : List SourceFile}
    (h : (files.map (·.group)).Nodup) :
    ((here ++ [moduleFileName]) :: files.map fun s => here ++ [s.group.stem ++ ".rs"]).Nodup := by
  refine List.nodup_cons.2 ⟨fun hmem => ?_, ?_⟩
  · obtain ⟨s, -, heq⟩ := List.mem_map.1 hmem
    exact s.group.fileName_ne_moduleFileName (List.singleton_inj.1 (List.append_cancel_left heq))
  · have hinj : Function.Injective fun g : Group => here ++ [g.stem ++ ".rs"] := fun g g' heq =>
      Group.fileName_injective (List.singleton_inj.1 (List.append_cancel_left heq))
    simpa [List.map_map, Function.comp_def] using h.map hinj

lemma Sorted.nodup_filesUnder {f : Forest} (hf : f.Sorted) (dir : List String)
    (hgroups : ∀ path ≠ [], ∀ package, f.package? path = some package →
      (package.1.map (·.group)).Nodup) : ((f.filesUnder dir).map (·.path)).Nodup := by
  induction f generalizing dir with
  | nil => exact List.nodup_nil
  | cons name files below rest ihbelow ihrest =>
    obtain ⟨hfirst, hbelow, hrest⟩ := id hf
    have hown : (files.map (·.group)).Nodup :=
      hgroups [name] (by simp) (files, below)
        ((hf.package?_cons_iff (by simp)).2 (Or.inl ⟨rfl, rfl⟩))
    have hunder := ihbelow hbelow (dir ++ [name]) fun path hpath package hpackage =>
      hgroups (name :: path) (by simp) package
        ((hf.package?_cons_iff (by simp)).2 (Or.inr (Or.inl ⟨path, hpath, rfl, hpackage⟩)))
    have hbeside := ihrest hrest dir fun path hpath package hpackage =>
      hgroups path hpath package ((hf.package?_cons_iff hpath).2 (Or.inr (Or.inr hpackage)))
    have hthis : ∀ path ∈ ((Forest.cons name files below .nil).filesUnder dir).map (·.path),
        ∃ tail, path = dir ++ name :: tail := by
      intro path hpath
      obtain ⟨t, ht, rfl⟩ := List.mem_map.1 hpath
      obtain ⟨other, hother, tail, -, hpath⟩ := exists_path_of_mem_filesUnder ht
      exact ⟨tail, List.mem_singleton.1 hother ▸ hpath⟩
    simp only [filesUnder, List.map_cons, List.map_append, List.map_map, Function.comp_def,
      List.append_nil] at hthis ⊢
    refine List.nodup_append.2 ⟨List.nodup_append.2 ⟨nodup_paths_of_package _ hown, hunder, ?_⟩,
      hbeside, ?_⟩
    · -- the files of the package are in its directory, those of packages below are deeper
      intro path hpath path' hpath' heq
      obtain ⟨t, ht, rfl⟩ := List.mem_map.1 hpath'
      obtain ⟨next, -, tail, htail, hdeep⟩ := exists_path_of_mem_filesUnder ht
      obtain ⟨x, rfl⟩ : ∃ x, path = dir ++ [name] ++ [x] := by
        obtain rfl | hpath := List.mem_cons.1 hpath
        · exact ⟨_, rfl⟩
        · obtain ⟨s, -, rfl⟩ := List.mem_map.1 hpath
          exact ⟨_, rfl⟩
      rw [hdeep] at heq
      have htail' := (List.cons.inj (List.append_cancel_left heq)).2
      exact htail htail'.symm
    · intro path hpath path' hpath' heq
      obtain ⟨t, ht, rfl⟩ := List.mem_map.1 hpath'
      obtain ⟨other, hother, tail, -, hbesides⟩ := exists_path_of_mem_filesUnder ht
      obtain ⟨tail', rfl⟩ := hthis path hpath
      rw [hbesides] at heq
      have hname := (List.cons.inj (List.append_cancel_left heq)).1
      exact (hfirst other hother).ne hname

/-- No two files of a tree have one path, if no package has two files of one group. -/
lemma Sorted.nodup_files {f : Forest} (hf : f.Sorted)
    (hgroups : ∀ path ≠ [], ∀ package, f.package? path = some package →
      (package.1.map (·.group)).Nodup) : (f.files.map (·.path)).Nodup := by
  rw [files, List.map_cons, List.nodup_cons]
  refine ⟨fun hmem => ?_, hf.nodup_filesUnder [] hgroups⟩
  obtain ⟨t, ht, hroot⟩ := List.mem_map.1 hmem
  obtain ⟨name, -, rest, hrest, hpath⟩ := exists_path_of_mem_filesUnder ht
  rw [hpath] at hroot
  exact hrest (List.cons.inj hroot).2

lemma Arranges.nodup_groups {files : String → List SourceFile} {modules : List String}
    {f : Forest} (hf : f.Arranges files modules)
    (hgroups : ∀ m, ((files m).map (·.group)).Nodup) {path : List String} (hpath : path ≠ [])
    {package : List SourceFile × Forest} (h : f.package? path = some package) :
    (package.1.map (·.group)).Nodup := by
  have hfiles : f.filesAt? path = some package.1 := by rw [filesAt?, h, Option.map_some]
  obtain ⟨m, -, -, hown⟩ | ⟨hempty, -⟩ := hf.eq_some_cases hpath hfiles
  · rw [hown]
    exact hgroups m
  · rw [hempty]
    exact List.nodup_nil

end Forest

/-! ## Names that lead down -/

lemma isPlainName_of_lowercase {name : String} (h : LowercaseIdentifier name) :
    IsPlainName name := by
  obtain ⟨c, cs, hname, hc, hcs⟩ := h
  have hdot : c ≠ '.' := by
    rintro rfl
    exact absurd hc (by decide)
  refine ⟨fun hslash => ?_, ?_, ?_, ?_⟩
  · obtain rfl | hslash := List.mem_cons.1 (hname ▸ hslash)
    · exact absurd hc (by decide)
    · exact absurd (hcs '/' hslash) (by decide)
  all_goals
    rintro rfl
    simp at hname
  · exact hdot hname.1.symm
  · exact hdot hname.1.symm

lemma isPlainName_moduleFileName : IsPlainName Forest.moduleFileName :=
  ⟨by decide, by decide, by decide, by decide⟩

lemma Group.isPlainName_fileName (g : Group) : IsPlainName (g.stem ++ ".rs") := by
  cases g <;> exact ⟨by decide, by decide, by decide, by decide⟩

section Accepted

variable {doc : Document} {c : Contract} {o : Options} {f : Forest}

/-- The names in the paths of an emitted tree lead down. -/
lemma isPlainName_of_mem_files (hof : c.Of doc) (hf : emit c o = .ok f) {t : TreeFile}
    (ht : t ∈ f.files) : ∀ name ∈ t.path, IsPlainName name := by
  obtain ⟨runtime, -, rfl, -⟩ := emit_ok_iff.1 hf
  have harranged := arranges_forestOf c runtime o
  obtain ⟨path, package, hpackage, hfile⟩ := harranged.sorted.mem_files_iff.1 ht
  have hpath : ∀ name ∈ path, IsPlainName name := by
    intro name hname
    have hfiles : (forestOf c runtime o).filesAt? path = some package.1 := by
      rw [Forest.filesAt?, hpackage, Option.map_some]
    obtain ⟨m, hm, hpre⟩ :=
      harranged.exists_module_of_filesAt? (List.ne_nil_of_mem hname) hfiles
    exact isPlainName_of_lowercase (segments_wellFormed hof hm name (hpre.subset hname)).1
  obtain rfl | ⟨s, -, rfl⟩ := hfile
  · exact List.forall_mem_append.2 ⟨hpath, by simpa using isPlainName_moduleFileName⟩
  · exact List.forall_mem_append.2 ⟨hpath, by simpa using s.group.isPlainName_fileName⟩

lemma nodup_files_of_emit (hf : emit c o = .ok f) : (f.files.map (·.path)).Nodup := by
  obtain ⟨runtime, -, rfl, -⟩ := emit_ok_iff.1 hf
  have harranged := arranges_forestOf c runtime o
  exact harranged.sorted.nodup_files fun path hpath package hpackage =>
    harranged.nodup_groups (nodup_moduleFiles c runtime o) hpath hpackage

end Accepted

/-! ## Writing -/

/-- The files of a tree, as they are written into a directory. -/
def Forest.filesIn (f : Forest) (dir : String) : List (String × ByteArray) :=
  f.render.map fun r => (Files.join dir r.path, r.contents.toUTF8)

/-- The files of an emitted tree meet nowhere. -/
lemma apart_filesIn {doc : Document} {c : Contract} {o : Options} {f : Forest} (hof : c.Of doc)
    (hf : emit c o = .ok f) (dir : String) : Apart (f.filesIn dir) := by
  have hpaths : f.files.Pairwise fun t t' => t.path ≠ t'.path :=
    List.pairwise_map.1 (nodup_files_of_emit hf)
  rw [Apart, Forest.filesIn, Forest.render, List.map_map, List.pairwise_map]
  refine hpaths.imp_of_mem fun {t t'} ht ht' hne d place => ?_
  exact locate_joined_ne hne (isPlainName_of_mem_files hof hf ht)
    (isPlainName_of_mem_files hof hf ht')

section WriteUnder

variable {f : Forest} {dir : String} {disk after : Disk}

lemma Forest.writeUnder_of_written
    (h : (writeFiles (f.filesIn dir) : StateM Disk _) disk = (none, after)) :
    (f.writeUnder dir : StateM Disk _).run disk =
      (.ok (f.render.map fun r => Files.join dir r.path), after) := by
  have hpaths : (f.filesIn dir).map (·.1) = f.render.map fun r => Files.join dir r.path := by
    rw [Forest.filesIn, List.map_map]
    rfl
  rw [← hpaths]
  exact Disk.bind_eq h

lemma Forest.writeUnder_of_failed {path : String}
    (h : (writeFiles (f.filesIn dir) : StateM Disk _) disk = (some path, after)) :
    (f.writeUnder dir : StateM Disk _).run disk = (.error (.unwritable path), after) :=
  Disk.bind_eq h

end WriteUnder

/-- The tree of an accepted document is written as a whole, and then nothing has changed but its
files and the directories above them that were missing, or the disk is as it was.  Calls may be
refused at any point, as long as none is refused that takes something back. -/
theorem written_whole_or_not (doc : Document) (c : Contract) (h : Contract.ofDocument doc = .ok c)
    (o : Options) (f : Forest) (hf : emit c o = .ok f) (dir : String) (disk after : Disk)
    (hdisk : disk.WellFormed) (hfaults : disk.faults = [])
    (hgranted : GrantsTakingBack (f.filesIn dir) disk) (outcome : Except EmitError (List String))
    (hrun : (f.writeUnder dir : StateM Disk _).run disk = (outcome, after)) :
    (∀ paths, outcome = .ok paths → paths = f.render.map (fun r => Files.join dir r.path) ∧
      Wrote (f.filesIn dir) disk after) ∧
    ∀ e, outcome = .error e → (∃ path, e = .unwritable path) ∧
      ∀ names, after.get? names = disk.get? names := by
  obtain ⟨failed, d, hwrite⟩ := Disk.exists_run (writeFiles (f.filesIn dir)) disk
  obtain ⟨hwrote, hsame⟩ := writeFiles_run hdisk (apart_filesIn (Contract.of_ofDocument h) hf dir)
    hfaults hgranted hwrite
  cases failed with
  | none =>
    obtain ⟨rfl, rfl⟩ := Prod.mk.inj ((Forest.writeUnder_of_written hwrite).symm.trans hrun)
    exact ⟨fun paths hpaths => ⟨(Except.ok.inj hpaths).symm, hwrote rfl⟩, nofun⟩
  | some path =>
    obtain ⟨rfl, rfl⟩ := Prod.mk.inj ((Forest.writeUnder_of_failed hwrite).symm.trans hrun)
    refine ⟨nofun, fun e he => ⟨⟨path, (Except.error.inj he).symm⟩, fun names => ?_⟩⟩
    exact ((hsame (by simp)).get? names).symm

/-- One declaration, which makes a tree of three files. -/
def oneInk : Document :=
  ⟨1, [.alias ⟨⟨"ink", "Shade"⟩, .primitive .string, none⟩]⟩

lemma isOk_oneInk : (Contract.ofDocument oneInk).isOk = true :=
  Contract.isOk_of_ranked (fun _ => 0) (by decide) rfl rfl (by decide)

/-- A disk with an old file where the second file of the tree goes and a directory where the third
does. -/
def blockedDisk : Disk :=
  ⟨[(["out"], .dir), (["out", "ink"], .dir), (["out", "ink", "mod.rs"], .file ⟨#[1]⟩),
    (["out", "ink", "aliases.rs"], .dir)], [], [], []⟩

lemma wellFormed_blockedDisk : blockedDisk.WellFormed :=
  Disk.wellFormed_of_entries
    (by simp only [blockedDisk, List.forall_mem_cons]; exact ⟨rfl, rfl, rfl, rfl, nofun⟩) rfl

/-- Where no call is refused until the end, none is that takes something back. -/
lemma grantsTakingBack_of_refusals {files : List (String × ByteArray)} {disk : Disk}
    (h : ((writeEach .empty files : StateM Disk _) disk).2.refusals = []) :
    GrantsTakingBack files disk := by
  intro journal failed d hrun
  have hnil : d.refusals = [] := by rwa [hrun] at h
  simp [hnil]

/-- Where the third file cannot be written, the first is removed and the second gets its old
contents back; on an empty disk all three are written. -/
theorem written_whole_or_not_oneInk :
    ∃ c f, Contract.ofDocument oneInk = .ok c ∧ emit c {} = .ok f ∧
      (∃ after, (f.writeUnder "out" : StateM Disk _).run blockedDisk =
        (.error (.unwritable "out/ink/aliases.rs"), after) ∧
        ∀ names, after.get? names = blockedDisk.get? names) ∧
      ∃ after, (f.writeUnder "out" : StateM Disk _).run Disk.empty =
        (.ok (f.render.map fun r => Files.join "out" r.path), after) ∧
        Wrote (f.filesIn "out") Disk.empty after := by
  have hruns :
      ((Contract.ofDocument oneInk).toOption.bind fun c => (emit c {}).toOption.map fun f =>
      (((writeFiles (f.filesIn "out") : StateM Disk _) blockedDisk).1,
        ((writeEach .empty (f.filesIn "out") : StateM Disk _) blockedDisk).2.refusals,
        ((writeFiles (f.filesIn "out") : StateM Disk _) Disk.empty).1,
        ((writeEach .empty (f.filesIn "out") : StateM Disk _) Disk.empty).2.refusals)) =
      some (some "out/ink/aliases.rs", [], none, []) := by
    decide +kernel
  obtain ⟨c, f, hc, hf⟩ : ∃ c f, Contract.ofDocument oneInk = .ok c ∧ emit c {} = .ok f :=
    exists_emit_ok isOk_oneInk (by decide +kernel) (by decide +kernel)
  simp only [hc, hf, Except.toOption, Option.bind_some, Option.map_some, Option.some.injEq,
    Prod.mk.injEq] at hruns
  obtain ⟨hfailed, hrefusals, hwritten, hrefusals'⟩ := hruns
  obtain ⟨left, hleft⟩ : ∃ after, (writeFiles (f.filesIn "out") : StateM Disk _) blockedDisk =
      (some "out/ink/aliases.rs", after) := ⟨_, Prod.fst_eq_iff.1 hfailed⟩
  obtain ⟨full, hfull⟩ : ∃ after, (writeFiles (f.filesIn "out") : StateM Disk _) Disk.empty =
      (none, after) := ⟨_, Prod.fst_eq_iff.1 hwritten⟩
  have hblocked := Forest.writeUnder_of_failed hleft
  have hempty := Forest.writeUnder_of_written hfull
  have hwell : Disk.empty.WellFormed := Disk.wellFormed_of_entries (List.forall_mem_nil _) rfl
  refine ⟨c, f, hc, hf, ⟨left, hblocked, ?_⟩, full, hempty, ?_⟩
  · exact ((written_whole_or_not oneInk c hc {} f hf "out" blockedDisk left
      wellFormed_blockedDisk rfl (grantsTakingBack_of_refusals hrefusals) _ hblocked).2 _ rfl).2
  · exact ((written_whole_or_not oneInk c hc {} f hf "out" Disk.empty full hwell rfl
      (grantsTakingBack_of_refusals hrefusals') _ hempty).1 _ rfl).2

end WireContract.Emit
