import WireContract.Proofs.EmittedNames
import WireContract.Proofs.GatheredImports
import WireContract.Proofs.PathNames

/-!
# Gathering imports a second time

Once its imports are gathered, a text stays as it is when they are gathered again
(`gatherUses_idempotent`).  The second scan goes over other lines than the first: imports have
moved, repeated ones are gone, and so are blank lines.  That it finds the same imports rests on two
conditions on the first text.  Every import is closed, for else it would take the next one in, and
no line inside an import looks like an attribute, for else it would guard the import after it.

Texts on which gathering does nothing are described by `Settled`.  Gathering leads to such a text
(`settled_of_cuts`), and a settled text is cut where its parts meet (`Settled.cuts`).  The lines
outside imports need an argument of their own.  Each that looks like the start of an import is
guarded by the line before it, which is then neither blank nor in an import, so the two stay
together when imports and blank lines go (`Cuts.isChain_others`, `isChain_squeeze`).
-/

namespace WireContract.Text

/-! ## Lines and their ends -/

lemma dropReturn_of_notMem {cs : List Char} (h : '\r' ∉ cs) : dropReturn cs = cs := by
  unfold dropReturn
  split
  · rename_i rest hreverse
    have hmem : '\r' ∈ cs.reverse := by
      rw [hreverse]
      exact List.mem_cons_self
    exact absurd (List.mem_reverse.1 hmem) h
  · rfl

lemma map_dropReturn {ls : List (List Char)} (h : ∀ line ∈ ls, '\r' ∉ line) :
    ls.map dropReturn = ls := by
  rw [List.map_congr_left fun line hline => dropReturn_of_notMem (h line hline), List.map_id']

/-- Without carriage returns, the lines of a text are pieces between its line feeds. -/
lemma lines_subset_splitOn {cs : List Char} (h : '\r' ∉ cs) : lines cs ⊆ splitOn '\n' cs := by
  have hpieces : ∀ piece ∈ (splitOn '\n' cs).reverse, '\r' ∉ piece := by
    intro piece hpiece hc
    exact h (mem_of_mem_splitOn (List.mem_reverse.1 hpiece) hc).1
  rw [← List.subset_reverse]
  unfold lines
  split
  · exact List.nil_subset _
  · rename_i full hfull
    rw [hfull] at hpieces ⊢
    rw [map_dropReturn fun line hline =>
      hpieces line (List.mem_cons_of_mem _ (List.mem_reverse.1 hline)), List.reverse_subset]
    exact List.subset_cons_self _ _
  · rename_i last full _ hfull
    rw [hfull] at hpieces ⊢
    rw [map_dropReturn fun line hline =>
      hpieces line (List.mem_cons_of_mem _ (List.mem_reverse.1 hline)), ← List.reverse_cons,
      List.reverse_subset]
    exact List.Subset.refl _

/-- The line has no line ends inside. -/
def IsUnbroken (line : List Char) : Prop := '\n' ∉ line ∧ '\r' ∉ line

lemma isUnbroken_of_mem_lines {cs line : List Char} (h : '\r' ∉ cs) (hline : line ∈ lines cs) :
    IsUnbroken line := by
  have hpiece := lines_subset_splitOn h hline
  constructor
  · intro hc
    exact (mem_of_mem_splitOn hpiece hc).2 rfl
  · intro hc
    exact h (mem_of_mem_splitOn hpiece hc).1

/-- Lines that are written with their ends are read again. -/
lemma lines_flatMap {ls : List (List Char)} (h : ∀ line ∈ ls, IsUnbroken line) :
    lines (ls.flatMap (· ++ ['\n'])) = ls := by
  have hsplit : splitOn '\n' (ls.flatMap (· ++ ['\n'])) = ls ++ [[]] := by
    induction ls with
    | nil => rfl
    | cons line ls ih =>
      obtain ⟨hline, hrest⟩ := List.forall_mem_cons.1 h
      rw [List.flatMap_cons, List.append_assoc, List.singleton_append, splitOn_append,
        splitOn_of_notMem hline.1, ih hrest]
      rfl
  have hreverse : (ls ++ [[]]).reverse = [] :: ls.reverse := by simp
  rw [lines, hsplit, hreverse]
  show ls.reverse.reverse.map dropReturn = ls
  rw [List.reverse_reverse, map_dropReturn fun line hline => (h line hline).2]

end WireContract.Text

namespace WireContract.Rust.UseBlock

/-! ## Lines outside imports -/

/-- The line starts no import after the line `previous`. -/
def Passed (previous line : Line) : Prop := starts line = true → guards previous = true

lemma guards_of_isBlank {line : Line} (h : IsBlank line) : guards line = false := by
  rw [← Bool.not_eq_true]
  intro hguards
  obtain ⟨rest, rfl⟩ := List.isPrefixOf_iff_prefix.1 hguards
  exact absurd (List.all_eq_true.1 h '#' (by simp)) (by decide)

lemma guards_of_starts {line : Line} (h : starts line = true) : guards line = false := by
  obtain ⟨rest, rfl⟩ := List.isPrefixOf_iff_prefix.1 h
  rfl

/-- Lines that start no import are cut one by one. -/
lemma cuts_others {previous : Line} {before rest : List Line} {ps : List Piece}
    (hbefore : (previous :: before).IsChain Passed)
    (hrest : Cuts (before.getLastD previous) rest ps) :
    Cuts previous (before ++ rest) (before.map .other ++ ps) := by
  induction before generalizing previous with
  | nil => exact hrest
  | cons line before ih =>
    obtain ⟨hline, hbefore⟩ := List.isChain_cons_cons.1 hbefore
    rw [List.getLastD_cons] at hrest
    exact .other hline (ih hbefore hrest)

/-- Dropping blank lines keeps lines from starting an import: a line after a blank one is not
guarded, so it does not look like a start at all. -/
lemma isChain_squeeze {previous : Line} {lines : List Line} (afterBlank : Bool)
    (h : (previous :: lines).IsChain Passed) :
    (previous :: squeeze afterBlank lines).IsChain Passed := by
  induction lines generalizing previous afterBlank with
  | nil => exact h
  | cons line lines ih =>
    obtain ⟨hline, hlines⟩ := List.isChain_cons_cons.1 h
    rw [squeeze]
    by_cases hdropped : (line.all Text.isBlank && afterBlank) = true
    · rw [if_pos hdropped]
      apply ih
      have hguards : guards line = false := guards_of_isBlank (Bool.and_eq_true_iff.1 hdropped).1
      cases lines with
      | nil => exact List.isChain_singleton _
      | cons next lines =>
        obtain ⟨hnext, hlines⟩ := List.isChain_cons_cons.1 hlines
        refine List.isChain_cons_cons.2 ⟨fun hstarts => ?_, hlines⟩
        rw [hnext hstarts] at hguards
        cases hguards
    · rw [if_neg hdropped]
      exact List.isChain_cons_cons.2 ⟨hline, ih _ hlines⟩

/-- Dropping blank lines leaves no attribute at the end that was not there. -/
lemma guards_getLastD_squeeze {previous : Line} {lines : List Line} {afterBlank : Bool}
    (hprevious : afterBlank = true → guards previous = false)
    (h : guards (lines.getLastD previous) = false) :
    guards ((squeeze afterBlank lines).getLastD previous) = false := by
  induction lines generalizing previous afterBlank with
  | nil => exact h
  | cons line lines ih =>
    rw [List.getLastD_cons] at h
    rw [squeeze]
    by_cases hdropped : (line.all Text.isBlank && afterBlank) = true
    · obtain ⟨-, hafter⟩ := Bool.and_eq_true_iff.1 hdropped
      rw [if_pos hdropped]
      apply ih fun _ => hprevious hafter
      cases lines with
      | nil => exact hprevious hafter
      | cons next lines => rwa [List.getLastD_cons] at h ⊢
    · rw [if_neg hdropped, List.getLastD_cons]
      exact ih guards_of_isBlank h

lemma squeeze_squeeze (lines : List Line) :
    squeeze false (squeeze false lines) = squeeze false lines := by
  rw [(squeezes_squeeze (squeeze false lines)).destutter, (squeezes_squeeze lines).destutter,
    List.destutter_idem]

/-! ## Imports that can be moved -/

/-- The lines of an import that is one wherever it stands: its last line closes it and no other
does, and none of its lines is an attribute of what follows. -/
structure IsWhole (s : List Line) : Prop where
  starts_head : ∀ first ∈ s.head?, starts first = true
  open_dropLast : ∀ line ∈ s.dropLast, closes line = false
  closes_last : ∃ last ∈ s.getLast?, closes last = true
  guards_tail : ∀ line ∈ s.tail, guards line = false

lemma IsWhole.guards_last {s : List Line} (h : IsWhole s) {last : Line}
    (hlast : last ∈ s.getLast?) : guards last = false := by
  cases s with
  | nil => cases hlast
  | cons first rest =>
    rcases List.mem_cons.1 (List.mem_of_getLast? hlast) with rfl | hmem
    · exact guards_of_starts (h.starts_head last rfl)
    · exact h.guards_tail last hmem

/-- Imports that stand together are cut one by one, if what follows them can be cut after any line
that is no attribute. -/
lemma cuts_statements {previous : Line} {imports : List (List Line)} {rest : List Line}
    {ps : List Piece} (hprevious : guards previous = false) (himports : ∀ s ∈ imports, IsWhole s)
    (hrest : ∀ last, guards last = false → Cuts last rest ps) :
    Cuts previous (imports.flatten ++ rest) (imports.map .statement ++ ps) := by
  induction imports generalizing previous with
  | nil => exact hrest previous hprevious
  | cons s imports ih =>
    obtain ⟨hs, himports⟩ := List.forall_mem_cons.1 himports
    obtain ⟨last, hlast, hcloses⟩ := hs.closes_last
    have hsplit : s = s.dropLast ++ [last] := (List.dropLast_append_getLast? last hlast).symm
    have hlines : (s :: imports).flatten ++ rest =
        s.dropLast ++ last :: (imports.flatten ++ rest) := by
      rw [List.flatten_cons, hsplit]
      simp
    rw [hlines, List.map_cons, hsplit, List.dropLast_concat]
    refine .statement ?_ hprevious hs.open_dropLast (.inl hcloses)
      (ih (hs.guards_last hlast) himports)
    rw [← hsplit]
    exact hs.starts_head

section Cuts

variable {previous : Line} {lines : List Line} {ps : List Piece}

/-- What the scan takes for an import can be moved, if it is closed and has no attributes inside. -/
lemma Cuts.isWhole (h : Cuts previous lines ps) {s : List Line} (hs : .statement s ∈ ps)
    (hclosed : ∃ last ∈ s.getLast?, closes last = true)
    (hguards : ∀ line ∈ s.tail, guards line = false) : IsWhole s := by
  induction h with
  | nil => cases hs
  | other _ _ ih => exact ih (by simpa using hs)
  | @statement _ last body _ _ hstarts _ hbody _ _ ih =>
    rcases List.mem_cons.1 hs with heq | hs
    · obtain rfl := Piece.statement.inj heq
      refine ⟨hstarts, ?_, hclosed, hguards⟩
      rwa [List.dropLast_concat]
    · exact ih hs

/-- A line outside imports that looks like a start is guarded by the line before it, and that line
is not in an import. -/
lemma Cuts.isChain_others (h : Cuts previous lines ps) (hwhole : ∀ s, .statement s ∈ ps → IsWhole s)
    {line : Line} (hline : guards previous = true → guards line = true) :
    (line :: others ps).IsChain Passed := by
  induction h generalizing line with
  | nil => exact List.isChain_singleton _
  | @other previous next rest ps hnext _ ih =>
    refine List.isChain_cons_cons.2 ⟨fun hstarts => hline (hnext hstarts), ?_⟩
    exact ih (fun s hs => hwhole s (List.mem_cons_of_mem _ hs)) id
  | @statement previous last body rest ps _ _ _ _ _ ih =>
    have hlast : guards last = false :=
      (hwhole _ List.mem_cons_self).guards_last (by simp)
    apply ih fun s hs => hwhole s (List.mem_cons_of_mem _ hs)
    rw [hlast]
    intro hfalse
    cases hfalse

end Cuts

/-- Before the first import stand lines that start none, and the last of them does not guard it. -/
lemma Cuts.before_statement {previous : Line} {lines before first : List Line} {after : List Piece}
    (h : Cuts previous lines (before.map .other ++ .statement first :: after)) :
    (previous :: before).IsChain Passed ∧ guards (before.getLastD previous) = false ∧
      ∃ last ∈ first.getLast?, ∃ rest, Cuts last rest after := by
  induction before generalizing previous lines with
  | nil =>
    cases h with
    | statement _ hguards _ _ hrest =>
      exact ⟨List.isChain_singleton _, hguards, _, by simp, _, hrest⟩
  | cons line before ih =>
    cases h with
    | other hline hrest =>
      obtain ⟨hchain, hguards, hafter⟩ := ih hrest
      exact ⟨List.isChain_cons_cons.2 ⟨hline, hchain⟩, by rwa [List.getLastD_cons], hafter⟩

/-! ## The parts of a gathered text -/

lemma eraseDups_of_nodup {imports : List (List Line)} (h : imports.Nodup) :
    imports.eraseDups = imports := by
  induction imports with
  | nil => rfl
  | cons s imports ih =>
    obtain ⟨hs, himports⟩ := List.nodup_cons.1 h
    have hkept : imports.filter (fun t => !t == s) = imports := by
      rw [List.filter_eq_self]
      intro t ht
      simpa using ne_of_mem_of_not_mem ht hs
    rw [List.eraseDups_cons, hkept, ih himports]

@[simp] lemma statements_append (ps ps' : List Piece) :
    statements (ps ++ ps') = statements ps ++ statements ps' :=
  List.filterMap_append

@[simp] lemma statements_map_other (lines : List Line) : statements (lines.map .other) = [] := by
  simp [statements, List.filterMap_map]

@[simp] lemma statements_map_statement (imports : List (List Line)) :
    statements (imports.map .statement) = imports := by
  simp [statements, List.filterMap_map]

@[simp] lemma others_append (ps ps' : List Piece) : others (ps ++ ps') = others ps ++ others ps' :=
  List.filterMap_append

@[simp] lemma others_map_other (lines : List Line) : others (lines.map .other) = lines := by
  simp [others, List.filterMap_map]

@[simp] lemma others_map_statement (imports : List (List Line)) :
    others (imports.map .statement) = [] := by
  simp [others, List.filterMap_map]

lemma mem_others_iff {ps : List Piece} {line : Line} : line ∈ others ps ↔ .other line ∈ ps := by
  unfold others
  rw [List.mem_filterMap]
  constructor
  · rintro ⟨p, hp, hline⟩
    cases p with
    | statement s => cases hline
    | other line' =>
      obtain rfl := Option.some.inj hline
      exact hp
  · intro hline
    exact ⟨_, hline, rfl⟩

/-- A text with imports is put together from its pieces. -/
lemma gatherUses_of_cuts {source : String} {before first : List Line} {after : List Piece}
    (h : Cuts [] (Text.lines source.toList) (before.map .other ++ .statement first :: after)) :
    gatherUses source = ofLines (squeeze false before ++
      (block (before.map .other ++ .statement first :: after)).flatten ++
        squeeze false (others after)) := by
  rw [gatherUses, (cuts_pieces [] (Text.lines source.toList)).unique h,
    if_pos (any_isStatement_iff.2 ⟨first, by simp⟩), others_takeWhile, others_dropWhile]
  rfl

/-- Lines, imports and lines that are left as they are: the imports can be moved, are listed once
and in order, nothing around them starts one, and no blank line follows a blank one. -/
structure Settled (before : List Line) (imports : List (List Line)) (after : List Line) : Prop where
  ne_nil : imports ≠ []
  nodup : imports.Nodup
  sorted : imports.Pairwise fun s t => key s ≤ key t
  whole : ∀ s ∈ imports, IsWhole s
  passed_before : ([] :: before).IsChain Passed
  guards_before : guards (before.getLastD []) = false
  passed_after : ∀ last, guards last = false → (last :: after).IsChain Passed
  squeezed_before : squeeze false before = before
  squeezed_after : squeeze false after = after

namespace Settled

variable {before after : List Line} {imports : List (List Line)}

/-- A settled text is cut where its parts meet. -/
lemma cuts (h : Settled before imports after) :
    Cuts [] (before ++ (imports.flatten ++ after))
      (before.map .other ++ (imports.map .statement ++ after.map .other)) := by
  apply cuts_others h.passed_before
  apply cuts_statements h.guards_before h.whole
  intro last hlast
  have hafter := cuts_others (h.passed_after last hlast) (Cuts.nil _)
  rwa [List.append_nil, List.append_nil] at hafter

lemma block_eq (h : Settled before imports after) :
    block (before.map .other ++ (imports.map .statement ++ after.map .other)) = imports := by
  have hstatements : statements (before.map .other ++
      (imports.map .statement ++ after.map .other)) = imports := by simp
  rw [block, hstatements, eraseDups_of_nodup h.nodup]
  exact List.mergeSort_of_pairwise (h.sorted.imp fun hle => decide_eq_true hle)

/-- Gathering does nothing to a settled text. -/
lemma gatherUses_eq (h : Settled before imports after) {source : String}
    (hlines : Text.lines source.toList = before ++ (imports.flatten ++ after)) :
    gatherUses source = ofLines (before ++ (imports.flatten ++ after)) := by
  obtain ⟨first, rest, rfl⟩ := List.exists_cons_of_ne_nil h.ne_nil
  have hcuts := h.cuts
  have hblock := h.block_eq
  have hothers : others (rest.map .statement ++ after.map .other) = after := by simp
  rw [List.map_cons, List.cons_append] at hcuts hblock
  rw [← hlines] at hcuts
  rw [gatherUses_of_cuts hcuts, hblock, hothers, h.squeezed_before, h.squeezed_after,
    List.append_assoc]

end Settled

/-- Gathering leads to a settled text, if every import can be moved. -/
lemma settled_of_cuts {lines before first : List Line} {after : List Piece}
    (h : Cuts [] lines (before.map .other ++ .statement first :: after))
    (hwhole : ∀ s, .statement s ∈ before.map Piece.other ++ .statement first :: after → IsWhole s) :
    Settled (squeeze false before) (block (before.map .other ++ .statement first :: after))
      (squeeze false (others after)) := by
  have hblock := listsOnce_block (before.map .other ++ .statement first :: after)
  obtain ⟨hbefore, hguards, last, hlast, rest, hafter⟩ := h.before_statement
  refine ⟨List.ne_nil_of_mem ((hblock.mem_iff first).2 (by simp)), hblock.nodup, hblock.sorted,
    fun s hs => hwhole s ((hblock.mem_iff s).1 hs), isChain_squeeze false hbefore,
    guards_getLastD_squeeze (by simp) hguards, fun line hline => ?_, squeeze_squeeze before,
    squeeze_squeeze _⟩
  apply isChain_squeeze
  apply hafter.isChain_others fun s hs => hwhole s (by simp [hs])
  rw [(hwhole first (by simp)).guards_last hlast]
  intro hfalse
  cases hfalse

/-- The lines of the gathered text are lines of the pieces. -/
lemma gathered_subset (before first : List Line) (after : List Piece) :
    squeeze false before ++ ((block (before.map .other ++ .statement first :: after)).flatten ++
      squeeze false (others after)) ⊆
      (before.map Piece.other ++ .statement first :: after).flatMap Piece.lines := by
  have hblock := listsOnce_block (before.map .other ++ .statement first :: after)
  intro line hline
  rw [List.mem_flatMap]
  rcases List.mem_append.1 hline with hline | hline
  · have hmem : line ∈ before := (squeezes_squeeze before).sublist.subset hline
    exact ⟨.other line, by simp [hmem], List.mem_singleton_self line⟩
  rcases List.mem_append.1 hline with hline | hline
  · obtain ⟨s, hs, hline⟩ := List.mem_flatten.1 hline
    exact ⟨.statement s, (hblock.mem_iff s).1 hs, hline⟩
  · have hmem := mem_others_iff.1 ((squeezes_squeeze (others after)).sublist.subset hline)
    exact ⟨.other line, by simp [hmem], List.mem_singleton_self line⟩

/-- Every import of the lines is closed, and none has a line after its first that looks like an
attribute. -/
structure IsTidy (lines : List Line) : Prop where
  closed : ∀ ps, Cuts [] lines ps → ∀ s, .statement s ∈ ps → ∃ last ∈ s.getLast?, closes last = true
  unguarded : ∀ ps, Cuts [] lines ps → ∀ s, .statement s ∈ ps → ∀ line ∈ s.tail, guards line = false

lemma isTidy_iff {lines : List Line} : IsTidy lines ↔ ∀ s ∈ statements (pieces [] [] lines),
    s.getLast?.any closes = true ∧ ∀ line ∈ s.tail, guards line = false := by
  have hcuts := cuts_pieces [] lines
  simp only [mem_statements_iff, Option.any_eq_true]
  constructor
  · intro h s hs
    exact ⟨h.closed _ hcuts s hs, h.unguarded _ hcuts s hs⟩
  · intro h
    constructor
    · intro ps hps s hs
      exact (h s (hps.unique hcuts ▸ hs)).1
    · intro ps hps s hs
      exact (h s (hps.unique hcuts ▸ hs)).2

instance : DecidablePred IsTidy := fun _ => decidable_of_iff' _ isTidy_iff

end WireContract.Rust.UseBlock

namespace WireContract.Rust

open UseBlock

/-- Gathering the imports of a text without carriage returns, all of whose imports are closed and
free of lines that look like attributes, gives a text that gathering leaves as it is.  The imports
of that text are those of the first, each once and in the order of their words. -/
theorem gatherUses_idempotent (source : String) (hreturn : '\r' ∉ source.toList)
    (htidy : IsTidy (Text.lines source.toList)) :
    gatherUses (gatherUses source) = gatherUses source ∧
    ∃ ps gathered, Cuts [] (Text.lines source.toList) ps ∧
      Cuts [] (Text.lines (gatherUses source).toList) gathered ∧
      ListsOnce ps (statements gathered) := by
  have hcuts := cuts_pieces [] (Text.lines source.toList)
  by_cases hexists : ∃ s, .statement s ∈ pieces [] [] (Text.lines source.toList)
  · obtain ⟨before, first, after, hps⟩ := exists_first_statement hexists
    rw [hps] at hcuts
    have hsettled := settled_of_cuts hcuts fun s hs =>
      hcuts.isWhole hs (htidy.closed _ hcuts s hs) (htidy.unguarded _ hcuts s hs)
    have hgathered := gatherUses_of_cuts hcuts
    rw [List.append_assoc] at hgathered
    have hlines : Text.lines (gatherUses source).toList = squeeze false before ++
        ((block (before.map .other ++ .statement first :: after)).flatten ++
          squeeze false (others after)) := by
      rw [hgathered, ofLines, String.toList_ofList]
      apply Text.lines_flatMap
      intro line hline
      apply Text.isUnbroken_of_mem_lines hreturn
      rw [← hcuts.flatMap_lines]
      exact gathered_subset before first after hline
    refine ⟨?_, _, _, hcuts, hlines ▸ hsettled.cuts, ?_⟩
    · rw [hsettled.gatherUses_eq hlines, hgathered]
    · simpa using listsOnce_block (before.map .other ++ .statement first :: after)
  · have hsame : gatherUses source = source := by
      rw [gatherUses, if_neg]
      rwa [any_isStatement_iff]
    rw [hsame]
    refine ⟨hsame, _, _, hcuts, hcuts, ?_⟩
    have hnone : statements (pieces [] [] (Text.lines source.toList)) = [] := by
      rw [List.eq_nil_iff_forall_not_mem]
      intro s hs
      exact hexists ⟨s, mem_statements_iff.1 hs⟩
    rw [hnone]
    exact ⟨List.nodup_nil, fun s => ⟨fun hs => (List.not_mem_nil hs).elim,
      fun hs => (hexists ⟨s, hs⟩).elim⟩, List.Pairwise.nil⟩

/-- Closed imports in no order, one of them twice and over two lines, and a guarded one that is
none.  A blank line stands on either side of an import. -/
def interleaved : String :=
  "// a\n\n\nuse b::\n  B;\n#[t]\nuse z::Z;\n\nuse a::A;\n \nuse b::\n  B;\n"

/-- The pieces of the interleaved imports after the first import. -/
def interleavedRest : List Piece :=
  [.other "#[t]".toList, .other "use z::Z;".toList, .other [], .statement ["use a::A;".toList],
    .other " ".toList, .statement ["use b::".toList, "  B;".toList]]

/-- Gathering the interleaved imports once is enough. -/
theorem gatherUses_idempotent_interleaved :
    '\r' ∉ interleaved.toList ∧ IsTidy (Text.lines interleaved.toList) ∧
    gatherUses interleaved = "// a\n\nuse a::A;\nuse b::\n  B;\n#[t]\nuse z::Z;\n\n" ∧
    gatherUses (gatherUses interleaved) = gatherUses interleaved := by
  have hreturn : '\r' ∉ interleaved.toList := by decide
  have htidy : IsTidy (Text.lines interleaved.toList) := by decide
  have hcuts := cuts_pieces [] (Text.lines interleaved.toList)
  have hpieces : pieces [] [] (Text.lines interleaved.toList) =
      ["// a".toList, [], []].map .other ++
        .statement ["use b::".toList, "  B;".toList] :: interleavedRest := by decide
  have hlisted : ListsOnce (pieces [] [] (Text.lines interleaved.toList))
      [["use a::A;".toList], ["use b::".toList, "  B;".toList]] := by
    refine ⟨by decide, fun s => ?_, by decide⟩
    have hstatements : statements (pieces [] [] (Text.lines interleaved.toList)) =
        [["use b::".toList, "  B;".toList], ["use a::A;".toList],
          ["use b::".toList, "  B;".toList]] := by decide
    rw [← mem_statements_iff, hstatements]
    simp only [List.mem_cons, List.not_mem_nil, or_false]
    tauto
  have hblock := hlisted.unique (listsOnce_block _) (by decide)
  rw [hpieces] at hcuts hblock
  have hgathered := gatherUses_of_cuts hcuts
  rw [← hblock] at hgathered
  refine ⟨hreturn, htidy, hgathered.trans (by decide), ?_⟩
  exact (gatherUses_idempotent interleaved hreturn htidy).1

end WireContract.Rust
