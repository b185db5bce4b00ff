import Mathlib.Data.List.Destutter
import Mathlib.Data.String.Basic
import WireContract.Proofs.ImportAliases
import WireContract.Rust.UseBlock

/-!
# Gathered imports

What gathering the imports of a text does, said without the scan (`gatherUses_loses_nothing`).

The scan goes line by line with the lines of an import that is not closed yet.  `Cuts` says what it
finds as a relation between lines and pieces: an import is taken up to the first line that closes
it, or to the end of the text.  The scan cuts a text (`cuts_pieces`), and there is no other way to
cut it (`Cuts.unique`), so the imports of a text are well defined.  Whether there are any can be
told from two adjacent lines (`Cuts.exists_statement_iff`), although lines inside an import may look
like the start of another.

The result is put together from three parts, each with its own specification: the other lines on
either side (`Squeezes`) and the block of imports between them (`ListsOnce`).
-/

namespace WireContract.Rust.UseBlock

/-! ## Cutting a text into pieces -/

/-- The lines after the line `previous` are cut into imports and other lines.  An import starts with
a line that starts one and is not guarded, and goes on to the first line that closes it, or to the
end of the text; every other line stands for itself. -/
inductive Cuts : Line → List Line → List Piece → Prop where
  | nil (previous : Line) : Cuts previous [] []
  | other {previous line : Line} {rest : List Line} {ps : List Piece}
      (hline : starts line = true → guards previous = true) (hrest : Cuts line rest ps) :
      Cuts previous (line :: rest) (.other line :: ps)
  | statement {previous last : Line} {body rest : List Line} {ps : List Piece}
      (hstarts : ∀ first ∈ (body ++ [last]).head?, starts first = true)
      (hguards : guards previous = false) (hbody : ∀ line ∈ body, closes line = false)
      (hlast : closes last = true ∨ rest = []) (hrest : Cuts last rest ps) :
      Cuts previous (body ++ last :: rest) (.statement (body ++ [last]) :: ps)

/-- The scan cuts a text, whether it is outside imports or inside one that is not closed yet. -/
lemma cuts_pieces_aux (lines : List Line) :
    (∀ previous, Cuts previous lines (pieces previous [] lines)) ∧
    ∀ {outer last : Line} {body : List Line},
      (∀ first ∈ (body ++ [last]).head?, starts first = true) → guards outer = false →
      (∀ line ∈ body ++ [last], closes line = false) →
      Cuts outer (body ++ last :: lines) (pieces last (body ++ [last]) lines) := by
  induction lines with
  | nil =>
    refine ⟨fun previous => .nil previous, ?_⟩
    intro outer last body hstarts hguards hopen
    have hpieces : pieces last (body ++ [last]) [] = [.statement (body ++ [last])] := by
      cases body <;> rfl
    rw [hpieces]
    exact .statement hstarts hguards (fun line h => hopen line (List.mem_append_left _ h))
      (.inr rfl) (.nil last)
  | cons line lines ih =>
    obtain ⟨hfree, hinside⟩ := ih
    constructor
    · intro previous
      rw [pieces]
      by_cases hstart : starts line = true ∧ guards previous = false
      · have hfirst : ∀ first ∈ ([] ++ [line]).head?, starts first = true := by
          intro first hfirst
          obtain rfl := Option.some.inj hfirst
          exact hstart.1
        rw [if_pos (by simp [hstart])]
        by_cases hclose : closes line = true
        · rw [if_pos hclose]
          exact .statement hfirst hstart.2 (by simp) (.inl hclose) (hfree line)
        · rw [if_neg hclose]
          exact hinside hfirst hstart.2 (by simpa using hclose)
      · rw [if_neg (by simpa using hstart)]
        exact .other (by simpa using hstart) (hfree line)
    · intro outer last body hstarts hguards hopen
      have hpieces : pieces last (body ++ [last]) (line :: lines) =
          if closes line then .statement (body ++ [last] ++ [line]) :: pieces line [] lines
          else pieces line (body ++ [last] ++ [line]) lines := by
        cases body <;> rfl
      have hhead : ∀ first ∈ (body ++ [last] ++ [line]).head?, starts first = true := by
        rwa [List.head?_append_of_ne_nil _ (by simp)]
      have happend : body ++ last :: line :: lines = (body ++ [last]) ++ line :: lines := by simp
      rw [hpieces, happend]
      by_cases hclose : closes line = true
      · rw [if_pos hclose]
        exact .statement hhead hguards hopen (.inl hclose) (hfree line)
      · rw [if_neg hclose]
        apply hinside hhead hguards
        intro l hl
        rcases List.mem_append.1 hl with hl | hl
        · exact hopen l hl
        · rw [List.mem_singleton.1 hl]
          simpa using hclose

/-- The scan cuts a text. -/
theorem cuts_pieces (previous : Line) (lines : List Line) :
    Cuts previous lines (pieces previous [] lines) :=
  (cuts_pieces_aux lines).1 previous

/-- The first line that closes an import is the same however it is found. -/
lemma eq_of_first_closing {body body' rest rest' : List Line} {last last' : Line}
    (h : body ++ last :: rest = body' ++ last' :: rest')
    (hbody : ∀ line ∈ body, closes line = false) (hbody' : ∀ line ∈ body', closes line = false)
    (hlast : closes last = true ∨ rest = []) (hlast' : closes last' = true ∨ rest' = []) :
    body = body' ∧ last = last' ∧ rest = rest' := by
  induction body generalizing body' with
  | nil =>
    cases body' with
    | nil => simpa using h
    | cons line body' =>
      -- the other body goes on after its first line, which does not close an import
      obtain ⟨rfl, rfl⟩ := List.cons.inj h
      have hopen := hbody' last List.mem_cons_self
      simp [hopen] at hlast
  | cons line body ih =>
    cases body' with
    | nil =>
      obtain ⟨rfl, rfl⟩ := List.cons.inj h
      have hopen := hbody line List.mem_cons_self
      simp [hopen] at hlast'
    | cons line' body' =>
      obtain ⟨rfl, htail⟩ := List.cons.inj h
      obtain ⟨rfl, rfl, rfl⟩ := ih htail (fun l hl => hbody l (List.mem_cons_of_mem _ hl))
        (fun l hl => hbody' l (List.mem_cons_of_mem _ hl))
      exact ⟨rfl, rfl, rfl⟩

lemma mem_head?_of_eq_cons {body rest rest' : List Line} {last line : Line}
    (h : body ++ last :: rest = line :: rest') : line ∈ (body ++ [last]).head? := by
  cases body with
  | nil => exact congrArg some (List.cons.inj h).1
  | cons first body => exact congrArg some (List.cons.inj h).1

/-- A text is cut in one way. -/
theorem Cuts.unique {previous : Line} {lines : List Line} {ps ps' : List Piece}
    (h : Cuts previous lines ps) (h' : Cuts previous lines ps') : ps = ps' := by
  induction h generalizing ps' with
  | nil previous =>
    generalize hlines : ([] : List Line) = lines at h'
    cases h' with
    | nil => rfl
    | other => cases hlines
    | statement => simp at hlines
  | @other previous line rest ps hline _ ih =>
    generalize hlines : line :: rest = lines at h'
    cases h' with
    | nil => cases hlines
    | other _ hrest' =>
      obtain ⟨rfl, rfl⟩ := List.cons.inj hlines
      rw [ih hrest']
    | statement hstarts hguards =>
      rw [hline (hstarts line (mem_head?_of_eq_cons hlines.symm))] at hguards
      cases hguards
  | @statement previous last body rest ps hstarts hguards hbody hlast _ ih =>
    generalize hlines : body ++ last :: rest = lines at h'
    cases h' with
    | nil => simp at hlines
    | other hline =>
      rw [hline (hstarts _ (mem_head?_of_eq_cons hlines))] at hguards
      cases hguards
    | statement _ _ hbody' hlast' hrest' =>
      obtain ⟨rfl, rfl, rfl⟩ := eq_of_first_closing hlines hbody hbody' hlast hlast'
      rw [ih hrest']

/-! ## Imports of a text -/

/-- The lines of a piece. -/
def Piece.lines : Piece → List Line
  | .statement ls => ls
  | .other l => [l]

/-- One of the lines after the line `previous` starts an import and is not guarded by the line
before it. -/
def HasImport (previous : Line) (lines : List Line) : Prop :=
  ∃ before line after, lines = before ++ line :: after ∧ starts line = true ∧
    guards (before.getLastD previous) = false

section Cuts

variable {previous : Line} {lines : List Line} {ps : List Piece}

/-- No line is lost by cutting, and none is added. -/
lemma Cuts.flatMap_lines (h : Cuts previous lines ps) : ps.flatMap Piece.lines = lines := by
  induction h with
  | nil => rfl
  | other _ _ ih => rw [List.flatMap_cons, ih]; rfl
  | statement _ _ _ _ _ ih => rw [List.flatMap_cons, ih]; simp [Piece.lines]

/-- A text has an import exactly if a line of it starts one. -/
lemma Cuts.exists_statement_iff (h : Cuts previous lines ps) :
    (∃ s, .statement s ∈ ps) ↔ HasImport previous lines := by
  induction h with
  | nil previous => simp [HasImport]
  | @other previous line rest ps hline _ ih =>
    have hps : (∃ s, .statement s ∈ Piece.other line :: ps) ↔ ∃ s, .statement s ∈ ps := by simp
    rw [hps, ih]
    constructor
    · rintro ⟨before, first, after, rfl, hstarts, hguards⟩
      exact ⟨line :: before, first, after, rfl, hstarts, by rwa [List.getLastD_cons]⟩
    · rintro ⟨before, first, after, heq, hstarts, hguards⟩
      cases before with
      | nil =>
        obtain ⟨rfl, rfl⟩ := List.cons.inj heq
        rw [List.getLastD_nil, hline hstarts] at hguards
        cases hguards
      | cons line' before =>
        obtain ⟨rfl, rfl⟩ := List.cons.inj heq
        exact ⟨before, first, after, rfl, hstarts, by rwa [List.getLastD_cons] at hguards⟩
  | @statement previous last body rest ps hstarts hguards _ _ _ _ =>
    refine iff_of_true ⟨_, List.mem_cons_self⟩ ?_
    cases body with
    | nil => exact ⟨[], last, rest, rfl, hstarts last rfl, hguards⟩
    | cons first body => exact ⟨[], first, _, rfl, hstarts first rfl, hguards⟩

end Cuts

/-- Pieces with an import are other lines, the first import and what follows it. -/
lemma exists_first_statement {ps : List Piece} (h : ∃ s, .statement s ∈ ps) :
    ∃ (before first : List Line) (after : List Piece),
      ps = before.map .other ++ .statement first :: after := by
  induction ps with
  | nil => simp at h
  | cons p ps ih =>
    cases p with
    | statement s => exact ⟨[], s, ps, rfl⟩
    | other l =>
      obtain ⟨before, first, after, rfl⟩ := ih (by simpa using h)
      exact ⟨l :: before, first, after, rfl⟩

section FirstStatement

variable (before first : List Line) (after : List Piece)

lemma others_takeWhile :
    others ((before.map Piece.other ++ Piece.statement first :: after).takeWhile (!·.isStatement)) =
      before := by
  induction before with
  | nil => rfl
  | cons l before ih => exact congrArg (l :: ·) ih

lemma others_dropWhile :
    others ((before.map Piece.other ++ Piece.statement first :: after).dropWhile (!·.isStatement)) =
      others after := by
  induction before with
  | nil => rfl
  | cons l before ih => exact ih

end FirstStatement

/-! ## Blank lines -/

/-- There are only blanks on the line. -/
def IsBlank (line : Line) : Prop := line.all Text.isBlank = true

instance : DecidablePred IsBlank := fun _ => inferInstanceAs (Decidable (_ = true))

/-- Of the lines, those blank ones are dropped that come after a blank one, and no others. -/
structure Squeezes (lines kept : List Line) : Prop where
  sublist : kept.Sublist lines
  written : kept.filter (¬ IsBlank ·) = lines.filter (¬ IsBlank ·)
  apart : kept.IsChain fun a b => ¬ (IsBlank a ∧ IsBlank b)
  destutter : kept = lines.destutter fun a b => ¬ (IsBlank a ∧ IsBlank b)

lemma cons_squeeze_eq_destutter' (line : Line) (lines : List Line) :
    line :: squeeze (line.all Text.isBlank) lines =
      lines.destutter' (fun a b => ¬ (IsBlank a ∧ IsBlank b)) line := by
  induction lines generalizing line with
  | nil => rfl
  | cons next lines ih =>
    rw [squeeze, List.destutter'_cons]
    by_cases hboth : IsBlank line ∧ IsBlank next
    · obtain ⟨hline, hnext⟩ := hboth
      have hdropped : (next.all Text.isBlank && line.all Text.isBlank) = true :=
        Bool.and_eq_true_iff.2 ⟨hnext, hline⟩
      rw [if_neg (not_not.2 ⟨hline, hnext⟩), ← ih line, if_pos hdropped, hline]
    · have hkept : ¬ (next.all Text.isBlank && line.all Text.isBlank) = true := by
        intro h
        obtain ⟨hnext, hline⟩ := Bool.and_eq_true_iff.1 h
        exact hboth ⟨hline, hnext⟩
      rw [if_pos hboth, ← ih next, if_neg hkept]

lemma filter_squeeze (afterBlank : Bool) (lines : List Line) :
    (squeeze afterBlank lines).filter (¬ IsBlank ·) = lines.filter (¬ IsBlank ·) := by
  induction lines generalizing afterBlank with
  | nil => rfl
  | cons line lines ih =>
    rw [squeeze]
    by_cases hblank : IsBlank line
    · rw [List.filter_cons_of_neg (by simpa using hblank)]
      by_cases hafter : afterBlank = true
      · rw [if_pos (Bool.and_eq_true_iff.2 ⟨hblank, hafter⟩)]
        exact ih true
      · rw [if_neg (by simp [hafter]), List.filter_cons_of_neg (by simpa using hblank)]
        exact ih _
    · have hkept : ¬ (line.all Text.isBlank && afterBlank) = true :=
        fun h => hblank (Bool.and_eq_true_iff.1 h).1
      rw [if_neg hkept, List.filter_cons_of_pos (by simpa using hblank),
        List.filter_cons_of_pos (by simpa using hblank), ih]

lemma squeezes_squeeze (lines : List Line) : Squeezes lines (squeeze false lines) := by
  have heq : squeeze false lines = lines.destutter fun a b => ¬ (IsBlank a ∧ IsBlank b) := by
    cases lines with
    | nil => rfl
    | cons line lines =>
      rw [List.destutter_cons', ← cons_squeeze_eq_destutter', squeeze]
      simp
  refine ⟨?_, filter_squeeze false lines, ?_, heq⟩
  · rw [heq]
    exact List.destutter_sublist _ _
  · rw [heq]
    exact List.isChain_destutter _ _

/-! ## The block -/

/-- The list holds each import among the pieces once, in the order of their words. -/
structure ListsOnce (ps : List Piece) (imports : List (List Line)) : Prop where
  nodup : imports.Nodup
  mem_iff : ∀ s, s ∈ imports ↔ .statement s ∈ ps
  sorted : imports.Pairwise fun a b => key a ≤ key b

lemma mem_statements_iff {ps : List Piece} {s : List Line} :
    s ∈ statements ps ↔ .statement s ∈ ps := by
  unfold statements
  rw [List.mem_filterMap]
  constructor
  · rintro ⟨p, hp, hs⟩
    cases p with
    | statement s' =>
      obtain rfl := Option.some.inj hs
      exact hp
    | other l => cases hs
  · intro hs
    exact ⟨_, hs, rfl⟩

lemma listsOnce_block (ps : List Piece) : ListsOnce ps (block ps) := by
  have hperm : (block ps).Perm (statements ps).eraseDups := List.mergeSort_perm _ _
  refine ⟨hperm.nodup_iff.2 (Emit.nodup_eraseDups _), fun s => ?_, ?_⟩
  · rw [hperm.mem_iff, List.mem_eraseDups, mem_statements_iff]
  · have htrans : ∀ a b c : List Line, decide (key a ≤ key b) = true →
        decide (key b ≤ key c) = true → decide (key a ≤ key c) = true := by
      intro a b c hab hbc
      exact decide_eq_true ((of_decide_eq_true hab).trans (of_decide_eq_true hbc))
    have htotal : ∀ a b : List Line, (decide (key a ≤ key b) || decide (key b ≤ key a)) = true := by
      intro a b
      simpa using le_total (key a) (key b)
    exact (List.pairwise_mergeSort htrans htotal _).imp fun hab => of_decide_eq_true hab

/-- The order is determined if no two imports have the same words. -/
lemma ListsOnce.unique {ps : List Piece} {imports imports' : List (List Line)}
    (h : ListsOnce ps imports) (h' : ListsOnce ps imports')
    (hkeys : ∀ s ∈ imports, ∀ t ∈ imports, key s = key t → s = t) : imports = imports' := by
  have hperm : imports.Perm imports' := by
    rw [List.perm_ext_iff_of_nodup h.nodup h'.nodup]
    intro s
    rw [h.mem_iff, h'.mem_iff]
  apply hperm.eq_of_pairwise _ h.sorted h'.sorted
  intro s t hs ht hle hge
  exact hkeys s hs t (hperm.mem_iff.2 ht) (le_antisymm hle hge)

/-! ## The gathered text -/

/-- The text with the given lines, each with its end. -/
def ofLines (lines : List Line) : String := String.ofList (lines.flatMap (· ++ ['\n']))

lemma any_isStatement_iff {ps : List Piece} :
    ps.any Piece.isStatement = true ↔ ∃ s, .statement s ∈ ps := by
  rw [List.any_eq_true]
  constructor
  · rintro ⟨p, hp, hstatement⟩
    cases p with
    | statement s => exact ⟨s, hp⟩
    | other l => cases hstatement
  · rintro ⟨s, hs⟩
    exact ⟨_, hs, rfl⟩

end WireContract.Rust.UseBlock

namespace WireContract.Rust

open UseBlock

/-- Gathering the imports of a text.  Its lines are cut into imports and other lines in one way.  If
no line starts an import, the text stays as it is.  If one does, the result has the lines before the
first import, then the imports, each of them once and in the order of their words, and then the
other lines after the first import.  Of the other lines only blank ones after blank ones are
dropped. -/
theorem gatherUses_loses_nothing (source : String) :
    ∃ ps, Cuts [] (Text.lines source.toList) ps ∧
      (∀ ps', Cuts [] (Text.lines source.toList) ps' → ps' = ps) ∧
      ps.flatMap Piece.lines = Text.lines source.toList ∧
      (¬ HasImport [] (Text.lines source.toList) → gatherUses source = source) ∧
      (HasImport [] (Text.lines source.toList) →
        ∃ before first after, ps = before.map .other ++ .statement first :: after ∧
          ∃ head imports tail, gatherUses source = ofLines (head ++ imports.flatten ++ tail) ∧
            Squeezes before head ∧ ListsOnce ps imports ∧ Squeezes (others after) tail) := by
  have hcuts := cuts_pieces [] (Text.lines source.toList)
  refine ⟨_, hcuts, fun ps' h => h.unique hcuts, hcuts.flatMap_lines, ?_, ?_⟩
  · intro hnone
    rw [gatherUses, if_neg]
    rwa [any_isStatement_iff, hcuts.exists_statement_iff]
  · intro himport
    have hexists := hcuts.exists_statement_iff.2 himport
    obtain ⟨before, first, after, hps⟩ := exists_first_statement hexists
    refine ⟨before, first, after, hps, _, _, _, ?_, squeezes_squeeze before, listsOnce_block _,
      squeezes_squeeze (others after)⟩
    have hbefore := others_takeWhile before first after
    have hafter := others_dropWhile before first after
    rw [← hps] at hbefore hafter
    rw [gatherUses, if_pos (any_isStatement_iff.2 hexists), hbefore, hafter]
    rfl

/-- Imports in no order: one over two lines that stands there twice, a guarded one that is none, and
one at the end that is not closed.  Blank lines come together when imports between them go. -/
def scattered : String :=
  "// a\n\n\nuse b::\n  B;\n#[t]\nuse z::Z;\n\nuse a::A;\n \nuse b::\n  B;\nuse c::C"

/-- The pieces of the scattered imports. -/
def scatteredPieces : List Piece :=
  let b := .statement ["use b::".toList, "  B;".toList]
  [.other "// a".toList, .other [], .other [], b, .other "#[t]".toList, .other "use z::Z;".toList,
    .other [], .statement ["use a::A;".toList], .other " ".toList, b,
    .statement ["use c::C".toList]]

/-- The order of the imports in the block. -/
lemma listsOnce_scattered : ListsOnce scatteredPieces
    [["use a::A;".toList], ["use b::".toList, "  B;".toList], ["use c::C".toList]] := by
  refine ⟨by decide, fun s => ?_, by decide⟩
  simp only [scatteredPieces, List.mem_cons, reduceCtorEq, Piece.statement.injEq,
    List.not_mem_nil, false_or, or_false]
  tauto

/-- The scattered imports, gathered. -/
theorem gatherUses_loses_nothing_scattered :
    HasImport [] (Text.lines scattered.toList) ∧
    Cuts [] (Text.lines scattered.toList) scatteredPieces ∧
    gatherUses scattered =
      "// a\n\nuse a::A;\nuse b::\n  B;\nuse c::C\n#[t]\nuse z::Z;\n\n" := by
  have hpieces : pieces [] [] (Text.lines scattered.toList) = scatteredPieces := by decide
  have hcuts : Cuts [] (Text.lines scattered.toList) scatteredPieces :=
    hpieces ▸ cuts_pieces [] (Text.lines scattered.toList)
  have himport := hcuts.exists_statement_iff.1 ⟨["use a::A;".toList], by decide⟩
  obtain ⟨ps, -, hunique, -, -, hgathered⟩ := gatherUses_loses_nothing scattered
  obtain rfl := hunique _ hcuts
  obtain ⟨before, first, after, hps, head, imports, tail, htext, hhead, himports, htail⟩ :=
    hgathered himport
  obtain rfl := listsOnce_scattered.unique himports (by decide)
  have hbefore := others_takeWhile before first after
  have hafter := others_dropWhile before first after
  rw [← hps] at hbefore hafter
  refine ⟨himport, hcuts, ?_⟩
  rw [htext, hhead.destutter, htail.destutter, ← hbefore, ← hafter]
  decide

end WireContract.Rust
