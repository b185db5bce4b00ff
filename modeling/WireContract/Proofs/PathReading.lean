import WireContract.Proofs.TokenWords
import WireContract.Rust.Place

/-!
# The words of paths that are read

A path is read from a text: the text is cut into lexemes, brackets make trees of them, and the
readers of types, arguments and segments take turns on the trees.  Every word that the lexer lets
through is an identifier, and no reader makes up another one, so the path is spelled
(`Path.spelled_of_parse?`).  Nor does a reader take a reserved word for a segment, unless paths to
types may have it (`Path.admits_of_parse?`).

The readers call each other with one step less.  What holds of all of them together is
`ReadersKeep`; each reader has a lemma that goes from `fuel` to `fuel + 1`.
-/

namespace WireContract.Rust

/-! ## Lexemes and trees -/

/-- Every word among the lexemes is an identifier. -/
lemma Lexeme.isSpelling_of_scanWithin {fuel : ℕ} {cs : List Char} {ls : List Lexeme}
    (h : scanWithin fuel cs = some ls) {s : String} (hs : .word s ∈ ls) : isSpelling s = true := by
  have hword : ∀ {cs s rest}, word? cs = some (s, rest) → isSpelling s = true := by
    intro cs s rest hword
    unfold word? at hword
    dsimp only at hword
    split at hword
    · split_ifs at hword with hspelled
      cases hword
      exact (Bool.and_eq_true_iff.1 hspelled).2
    · cases hword
  have hleaf : ∀ {cs l rest}, leaf? cs = some (l, rest) → l = .word s → isSpelling s = true := by
    rintro cs l rest hleaf rfl
    unfold leaf? at hleaf
    split at hleaf
    · cases hleaf
    · split_ifs at hleaf
      · split at hleaf
        · split_ifs at hleaf
          cases hleaf
        · cases hleaf
        · cases hleaf
      · obtain ⟨⟨s', rest'⟩, hfound, heq⟩ := Option.map_eq_some_iff.1 hleaf
        cases heq
        exact hword hfound
  have hdoc : ∀ {inner text}, .word s ∈ docAttr inner text → isSpelling s = true := by
    intro inner text hmem
    cases inner <;> simp [docAttr] at hmem <;> subst hmem <;> decide
  fun_induction scanWithin fuel cs generalizing ls with
  | case1 => cases h
  | case2 =>
    obtain rfl := Option.some.inj h
    exact (List.not_mem_nil hs).elim
  | case3 fuel c cs hgap ih => exact ih h hs
  | case4 fuel c cs hgap text rest hcomment ih => exact ih h hs
  | case5 fuel c cs hgap inner text rest hcomment hpaired ih =>
    obtain ⟨ls', hls', rfl⟩ := Option.map_eq_some_iff.1 h
    rcases List.mem_append.1 hs with hs | hs
    · exact hdoc hs
    · exact ih hls' hs
  | case6 => cases h
  | case7 fuel c cs hgap hcomment b hopening ih =>
    obtain ⟨ls', hls', rfl⟩ := Option.map_eq_some_iff.1 h
    exact ih hls' (by simpa using hs)
  | case8 fuel c cs hgap hcomment b hopening hclosing ih =>
    obtain ⟨ls', hls', rfl⟩ := Option.map_eq_some_iff.1 h
    exact ih hls' (by simpa using hs)
  | case9 fuel c cs hgap hcomment hopening hclosing ih =>
    obtain ⟨⟨l, rest⟩, hl, h⟩ := Option.bind_eq_some_iff.1 h
    obtain ⟨ls', hls', heq⟩ := Option.bind_eq_some_iff.1 h
    obtain rfl := Option.some.inj heq
    rcases List.mem_cons.1 hs with heq | hs
    · exact hleaf hl heq.symm
    · exact ih rest hls' hs

namespace Tree

mutual

/-- Every word in the tree is an identifier. -/
def Spelled : Tree → Prop
  | .word s => isSpelling s = true
  | .mark _ _ => True
  | .literal _ => True
  | .group _ inner => AllSpelled inner

/-- Every word in the trees is an identifier. -/
def AllSpelled : List Tree → Prop
  | [] => True
  | t :: ts => Spelled t ∧ AllSpelled ts

end

@[simp] lemma spelled_word {s : String} : Spelled (.word s) ↔ isSpelling s = true := by
  rw [Spelled]

@[simp] lemma spelled_mark {c : Char} {joint : Bool} : Spelled (.mark c joint) := by
  rw [Spelled]
  trivial

@[simp] lemma spelled_literal {written : String} : Spelled (.literal written) := by
  rw [Spelled]
  trivial

@[simp] lemma spelled_group {b : Bracket} {inner : List Tree} :
    Spelled (.group b inner) ↔ AllSpelled inner := by
  rw [Spelled]

@[simp] lemma allSpelled_nil : AllSpelled [] := by
  rw [AllSpelled]
  trivial

@[simp] lemma allSpelled_cons {t : Tree} {ts : List Tree} :
    AllSpelled (t :: ts) ↔ t.Spelled ∧ AllSpelled ts := by
  rw [AllSpelled]

lemma allSpelled_iff {ts : List Tree} : AllSpelled ts ↔ ∀ t ∈ ts, t.Spelled := by
  induction ts with
  | nil => simp
  | cons t ts ih => simp [ih]

lemma allSpelled_build {ls : List Lexeme} (hls : ∀ s, .word s ∈ ls → isSpelling s = true)
    {outer : List Open} (houter : ∀ o ∈ outer, AllSpelled o.2) {done : List Tree}
    (hdone : AllSpelled done) {ts : List Tree} (h : build outer done ls = some ts) :
    AllSpelled ts := by
  have hrest : ∀ {l : Lexeme} {ls : List Lexeme}, (∀ s, .word s ∈ l :: ls → isSpelling s = true) →
      ∀ s, .word s ∈ ls → isSpelling s = true :=
    fun hls s hs => hls s (List.mem_cons_of_mem _ hs)
  have hreverse : ∀ {ts : List Tree}, AllSpelled ts → AllSpelled ts.reverse := by
    intro ts hts
    rw [allSpelled_iff] at hts ⊢
    exact fun t ht => hts t (List.mem_reverse.1 ht)
  fun_induction build outer done ls with
  | case1 outer done hempty =>
    obtain rfl := Option.some.inj h
    exact hreverse hdone
  | case2 => cases h
  | case3 outer done s ls ih =>
    exact ih (hrest hls) houter (by simpa using ⟨hls s List.mem_cons_self, hdone⟩) h
  | case4 outer done c joint ls ih => exact ih (hrest hls) houter (by simpa using hdone) h
  | case5 outer done written ls ih => exact ih (hrest hls) houter (by simpa using hdone) h
  | case6 outer done b ls ih =>
    exact ih (hrest hls) (List.forall_mem_cons.2 ⟨hdone, houter⟩) allSpelled_nil h
  | case7 => cases h
  | case8 done b ls opened before outer hmatch ih =>
    rw [List.forall_mem_cons] at houter
    exact ih (hrest hls) houter.2 (by simpa using ⟨hreverse hdone, houter.1⟩) h
  | case9 => cases h

lemma allSpelled_parse? {source : String} {ts : List Tree} (h : parse? source = some ts) :
    AllSpelled ts := by
  obtain ⟨ls, hscan, hbuild⟩ := Option.bind_eq_some_iff.1 h
  exact allSpelled_build (fun s => Lexeme.isSpelling_of_scanWithin hscan)
    (List.forall_mem_nil _) allSpelled_nil hbuild

/-! ## Readers of a front -/

/-- From spelled trees a reader gives what has a property, and leaves spelled trees. -/
def Keeps {α : Type} (read : List Tree → Option (α × List Tree)) (P : α → Prop) : Prop :=
  ∀ ⦃ts a rest⦄, AllSpelled ts → read ts = some (a, rest) → P a ∧ AllSpelled rest

/-- A reader that gives a form of what another reader gives. -/
lemma Keeps.map {α β : Type} {read : List Tree → Option (α × List Tree)} {P : α → Prop}
    (hread : Keeps read P) (form : α → β) {Q : β → Prop} (hform : ∀ a, P a → Q (form a)) :
    Keeps (fun ts => do let (a, rest) ← read ts; return (form a, rest)) Q := by
  intro ts b rest hts h
  obtain ⟨⟨a, rest'⟩, ha, heq⟩ := Option.bind_eq_some_iff.1 h
  cases heq
  obtain ⟨ha, hrest⟩ := hread hts ha
  exact ⟨hform a ha, hrest⟩

lemma allSpelled_lifetimeFront {ts : List Tree} (hts : AllSpelled ts) :
    (∀ l ∈ (lifetimeFront ts).1, isWord l = true) ∧ AllSpelled (lifetimeFront ts).2 := by
  unfold lifetimeFront
  split
  · simp only [allSpelled_cons, spelled_word] at hts
    exact ⟨by simpa using isWord_of_isSpelling hts.2.1, hts.2.2⟩
  · exact ⟨by simp, hts⟩

lemma allSpelled_wordFront {w : String} {ts rest : List Tree} {found : Bool}
    (hts : AllSpelled ts) (h : wordFront w ts = (found, rest)) : AllSpelled rest := by
  unfold wordFront at h
  split at h
  · split at h
    · obtain ⟨-, rfl⟩ := Prod.mk.inj h
      exact (allSpelled_cons.1 hts).2
    · obtain ⟨-, rfl⟩ := Prod.mk.inj h
      exact hts
  · obtain ⟨-, rfl⟩ := Prod.mk.inj h
    exact hts

end Tree

open WireContract.Rust.Tree

lemma Ident.eq_cons_of_parse? {allowed : List String} {ts rest : List Tree} {i : Ident}
    (h : Ident.parse? allowed ts = some (i, rest)) :
    ts = .word i.text :: rest ∧ (i.isFree || allowed.contains i.text) = true := by
  unfold Ident.parse? at h
  split at h
  · split_ifs at h with hword
    cases h
    exact ⟨rfl, hword⟩
  · cases h

lemma Ident.keeps_parse? (allowed : List String) :
    Keeps (Ident.parse? allowed) fun i => isWord i.text = true := by
  intro ts i rest hts h
  rw [(eq_cons_of_parse? h).1, allSpelled_cons, spelled_word] at hts
  exact ⟨isWord_of_isSpelling hts.1, hts.2⟩

lemma Path.allSpelled_afterColons? {ts rest : List Tree} (hts : AllSpelled ts)
    (h : afterColons? ts = some rest) : AllSpelled rest := by
  unfold afterColons? at h
  split at h
  · obtain rfl := Option.some.inj h
    simpa using hts
  · cases h

lemma Path.allSpelled_colonsFront {ts : List Tree} (hts : AllSpelled ts) :
    AllSpelled (colonsFront ts).2 := by
  unfold colonsFront
  split
  · rename_i rest hcolons
    exact allSpelled_afterColons? hts hcolons
  · exact hts

/-! ## Readers of arguments -/

lemma ArgPath.spelled_tokens_iff {p : ArgPath} : p.tokens.Spelled ↔
    (∀ i ∈ p.names, isWord i.text = true) ∧ ∀ g ∈ p.generics, g.tokens.Spelled := by
  match p with
  | .nil => simp [tokens, names, generics]
  | .cons name generics .nil => simp [tokens, names, ArgPath.generics]
  | .cons name generics (.cons next more rest) =>
    have ih := (ArgPath.cons next more rest).spelled_tokens_iff
    simp only [tokens, names, ArgPath.generics, Tokens.spelled_append, Tokens.spelled_word,
      Tokens.spelled_marks, List.forall_mem_cons] at ih ⊢
    tauto

lemma GenericArgs.spelled_ofList {args : List GenericArg} :
    (∀ t ∈ (ofList args).tokens, t.Spelled) ↔ ∀ a ∈ args, a.tokens.Spelled := by
  induction args with
  | nil => simp [ofList, tokens]
  | cons a args ih =>
    rw [List.forall_mem_cons, ← ih]
    simp [ofList, tokens]

lemma Generics.spelled_angles {colons comma : Bool} {args : GenericArgs} :
    (angles colons args comma).tokens.Spelled ↔ ∀ t ∈ args.tokens, t.Spelled := by
  cases colons <;> cases comma <;> simp [tokens]

/-- Putting lifetimes first keeps the arguments. -/
lemma Generics.spelled_ofRead {colons : Bool} {read : List (GenericArg × Bool)}
    (h : ∀ a ∈ read, a.1.tokens.Spelled) : (ofRead colons read).tokens.Spelled := by
  rw [ofRead, spelled_angles, GenericArgs.spelled_ofList, List.forall_mem_map,
    List.forall_mem_append]
  exact ⟨fun a ha => h a (List.mem_of_mem_filter ha), fun a ha => h a (List.mem_of_mem_filter ha)⟩

/-- The words of what the readers give within `fuel` steps are identifiers. -/
structure ReadersKeep (fuel : ℕ) : Prop where
  type : Keeps (ArgType.parse? fuel) fun t => t.tokens.Spelled
  types : ∀ ⦃ts us comma⦄, AllSpelled ts → ArgTypes.parse? fuel ts = some (us, comma) →
    ∀ t ∈ us.tokens, t.Spelled
  path : Keeps (ArgPath.parse? fuel) fun p => p.tokens.Spelled
  arg : Keeps (GenericArg.parse? fuel) fun a => a.tokens.Spelled
  args : Keeps (GenericArgs.parse? fuel) fun as => ∀ a ∈ as, a.1.tokens.Spelled
  generics : Keeps (Generics.parse? fuel) fun g => g.tokens.Spelled

namespace ReadersKeep

variable {fuel : ℕ} (h : ReadersKeep fuel)

include h

lemma keeps_path : Keeps (ArgPath.parse? (fuel + 1)) fun p => p.tokens.Spelled := by
  intro ts p rest hts hread
  rw [ArgPath.parse?] at hread
  obtain ⟨⟨name, afterName⟩, hname, hread⟩ := Option.bind_eq_some_iff.1 hread
  obtain ⟨hname, hafterName⟩ := Ident.keeps_parse? typeWords hts hname
  obtain ⟨⟨generics, afterArgs⟩, hargs, hread⟩ := Option.bind_eq_some_iff.1 hread
  obtain ⟨hgenerics, hafterArgs⟩ : generics.tokens.Spelled ∧ AllSpelled afterArgs := by
    split_ifs at hargs
    · cases hargs
      exact ⟨by simp [Generics.tokens], hafterName⟩
    · exact h.generics hafterName hargs
  dsimp only at hread
  split at hread
  · rename_i afterColons hcolons
    obtain ⟨⟨q, rest'⟩, hq, heq⟩ := Option.bind_eq_some_iff.1 hread
    cases heq
    obtain ⟨hq, hrest⟩ := h.path (Path.allSpelled_afterColons? hafterArgs hcolons) hq
    obtain ⟨hnames, hmore⟩ := ArgPath.spelled_tokens_iff.1 hq
    exact ⟨ArgPath.spelled_tokens_iff.2 ⟨List.forall_mem_cons.2 ⟨hname, hnames⟩,
      List.forall_mem_cons.2 ⟨hgenerics, hmore⟩⟩, hrest⟩
  · cases hread
    exact ⟨by simp [ArgPath.tokens, hname, hgenerics], hafterArgs⟩

lemma keeps_type : Keeps (ArgType.parse? (fuel + 1)) fun t => t.tokens.Spelled := by
  -- A path, reference or pointer is read by the reader of what it is made from.
  have hpath (absolute : Bool) := h.path.map (.path absolute)
    (Q := fun t : ArgType => t.tokens.Spelled) fun p hp => by
      cases absolute <;> simpa [ArgType.tokens] using hp
  have hreference {lifetime : Option String} (hlifetime : ∀ l ∈ lifetime, isWord l = true)
      (mutable : Bool) := h.type.map (.reference lifetime mutable)
    (Q := fun t : ArgType => t.tokens.Spelled) fun t ht => by
      cases lifetime <;> cases mutable <;> simp_all +decide [ArgType.tokens, Tokens.lifetime]
  have hpointer (mutable : Bool) := h.type.map (.pointer mutable)
    (Q := fun t : ArgType => t.tokens.Spelled) fun t ht => by
      cases mutable <;> simpa +decide [ArgType.tokens] using ht
  intro ts t rest hts hread
  rw [ArgType.parse?.eq_def] at hread
  dsimp only at hread
  split at hread
  · -- A word: the type that is left to be found, or a path.
    split_ifs at hread
    · cases hread
      exact ⟨by simp +decide [ArgType.tokens], (allSpelled_cons.1 hts).2⟩
    · exact hpath false hts hread
  · -- A mark says what follows it.
    have hafter := (allSpelled_cons.1 hts).2
    split_ifs at hread
    · cases hread
      exact ⟨by simp [ArgType.tokens], hafter⟩
    · obtain ⟨hlifetime, hafter⟩ := allSpelled_lifetimeFront hafter
      exact hreference hlifetime _ (allSpelled_wordFront hafter rfl) hread
    · split at hread
      · rename_i hmut
        exact hpointer true (allSpelled_wordFront hafter hmut) hread
      · rename_i hconst _
        exact hpointer false (allSpelled_wordFront hafter hconst) hread
      · cases hread
    · obtain ⟨after, hcolons, hread⟩ := Option.bind_eq_some_iff.1 hread
      exact hpath true (Path.allSpelled_afterColons? hts hcolons) hread
  · -- Square brackets hold the items of a slice or an array.
    rw [allSpelled_cons, spelled_group] at hts
    split at hread
    · rename_i item hitem
      cases hread
      exact ⟨by simpa [ArgType.tokens] using (h.type hts.1 hitem).1, hts.2⟩
    · rename_i item _ length hitem
      cases hread
      refine ⟨?_, hts.2⟩
      simpa [ArgType.tokens] using (h.type hts.1 hitem).1
    · cases hread
  · rw [allSpelled_cons, spelled_group] at hts
    obtain ⟨⟨items, comma⟩, hitems, heq⟩ := Option.bind_eq_some_iff.1 hread
    cases heq
    have hitems := h.types hts.1 hitems
    refine ⟨?_, hts.2⟩
    cases comma <;> simpa [ArgType.tokens]
  · cases hread

lemma keeps_types {ts : List Tree} {us : ArgTypes} {comma : Bool} (hts : AllSpelled ts)
    (hread : ArgTypes.parse? (fuel + 1) ts = some (us, comma)) : ∀ t ∈ us.tokens, t.Spelled := by
  rw [ArgTypes.parse?.eq_def] at hread
  split at hread
  · cases hread
  · cases hread
    simp [ArgTypes.tokens]
  · rename_i fuel' heq _
    obtain rfl := Nat.succ.inj heq
    obtain ⟨⟨t, after⟩, ht, hread⟩ := Option.bind_eq_some_iff.1 hread
    obtain ⟨htype, hafter⟩ := h.type hts ht
    dsimp only at hread
    split at hread
    · cases hread
      simpa [ArgTypes.tokens] using htype
    · cases hread
      simpa [ArgTypes.tokens] using htype
    · obtain ⟨⟨more, ends⟩, hmore, heq⟩ := Option.bind_eq_some_iff.1 hread
      cases heq
      have hmore := h.types (allSpelled_cons.1 hafter).2 hmore
      simpa [ArgTypes.tokens] using ⟨htype, hmore⟩
    · cases hread

lemma keeps_arg : Keeps (GenericArg.parse? (fuel + 1)) fun a => a.tokens.Spelled := by
  intro ts a rest hts hread
  rw [GenericArg.parse?.eq_def] at hread
  dsimp only at hread
  split at hread
  · cases hread
    simp only [allSpelled_cons, spelled_word] at hts
    exact ⟨by simpa [GenericArg.tokens, Tokens.lifetime] using isWord_of_isSpelling hts.2.1,
      hts.2.2⟩
  · cases hread
    exact ⟨by simp [GenericArg.tokens], (allSpelled_cons.1 hts).2⟩
  · cases hread
    exact ⟨by simp [GenericArg.tokens], by simpa using hts⟩
  · cases hread
    exact ⟨by simp [GenericArg.tokens], (allSpelled_cons.1 hts).2⟩
  · cases hread
    exact ⟨by simp [GenericArg.tokens], (allSpelled_cons.1 hts).2⟩
  · obtain ⟨⟨t, after⟩, ht, hread⟩ := Option.bind_eq_some_iff.1 hread
    obtain ⟨htype, hafter⟩ := h.type hts ht
    dsimp only at hread
    split at hread
    · obtain ⟨⟨bound, after'⟩, hbound, heq⟩ := Option.bind_eq_some_iff.1 hread
      cases heq
      obtain ⟨hbound, hrest⟩ := h.type (allSpelled_cons.1 hafter).2 hbound
      refine ⟨?_, hrest⟩
      simp only [ArgType.tokens, ArgPath.tokens] at htype
      simpa [GenericArg.tokens, hbound, Generics.tokens] using htype
    · cases hread
      exact ⟨by simpa [GenericArg.tokens] using htype, hafter⟩

lemma keeps_args :
    Keeps (GenericArgs.parse? (fuel + 1)) fun as => ∀ a ∈ as, a.1.tokens.Spelled := by
  intro ts as rest hts hread
  rw [GenericArgs.parse?.eq_def] at hread
  split at hread
  · cases hread
  · cases hread
    exact ⟨List.forall_mem_nil _, (allSpelled_cons.1 hts).2⟩
  · rename_i fuel' heq _
    obtain rfl := Nat.succ.inj heq
    obtain ⟨⟨a, after⟩, ha, hread⟩ := Option.bind_eq_some_iff.1 hread
    obtain ⟨harg, hafter⟩ := h.arg hts ha
    dsimp only at hread
    split at hread
    · cases hread
      exact ⟨by simpa using harg, (allSpelled_cons.1 hafter).2⟩
    · obtain ⟨⟨more, after'⟩, hmore, heq⟩ := Option.bind_eq_some_iff.1 hread
      cases heq
      obtain ⟨hmore, hrest⟩ := h.args (allSpelled_cons.1 hafter).2 hmore
      exact ⟨List.forall_mem_cons.2 ⟨harg, hmore⟩, hrest⟩
    · cases hread

lemma keeps_generics : Keeps (Generics.parse? (fuel + 1)) fun g => g.tokens.Spelled := by
  have hangles (colons : Bool) := h.args.map (.ofRead colons)
    (Q := fun g : Generics => g.tokens.Spelled) fun _ hargs => Generics.spelled_ofRead hargs
  intro ts g rest hts hread
  rw [Generics.parse?.eq_def] at hread
  dsimp only at hread
  split at hread
  · exact hangles false (allSpelled_cons.1 hts).2 hread
  · exact hangles true (by simpa using hts) hread
  · cases hread
    exact ⟨by simp [Generics.tokens], hts⟩

end ReadersKeep

/-- Each reader keeps words with one step more, so all do with any number of steps. -/
lemma readersKeep (fuel : ℕ) : ReadersKeep fuel := by
  induction fuel with
  | zero =>
    constructor <;> intro ts _ _ _ hread
    · rw [ArgType.parse?] at hread
      cases hread
    · rw [ArgTypes.parse?] at hread
      cases hread
    · rw [ArgPath.parse?] at hread
      cases hread
    · rw [GenericArg.parse?] at hread
      cases hread
    · rw [GenericArgs.parse?] at hread
      cases hread
    · rw [Generics.parse?] at hread
      cases hread
  | succ fuel h =>
    exact ⟨h.keeps_type, fun _ _ _ => h.keeps_types, h.keeps_path, h.keeps_arg, h.keeps_args,
      h.keeps_generics⟩

/-! ## Whole paths -/

/-- A path that is read is the segments that a reader gives, each with its arguments; those at the
end without arguments are not kept. -/
lemma Path.exists_of_parse? {source : String} {p : Path} (h : Path.parse? source = some p) :
    ∃ ts fuel q, AllSpelled ts ∧ ArgPath.parse? fuel ts = some (q, []) ∧
      p.segments = q.names ∧ p.generics ⊆ q.generics := by
  obtain ⟨ts, hts, h⟩ := Option.bind_eq_some_iff.1 h
  obtain ⟨⟨q, rest⟩, hread, h⟩ := Option.bind_eq_some_iff.1 h
  dsimp only at h
  split_ifs at h with hrest
  obtain rfl := Option.some.inj h
  rw [List.isEmpty_iff.1 hrest] at hread
  refine ⟨_, _, q, allSpelled_colonsFront (allSpelled_parse? hts), hread, rfl, fun g hg => ?_⟩
  rw [ofArgPath, List.mem_reverse] at hg
  exact List.mem_reverse.1 ((List.dropWhile_suffix _).subset hg)

/-- The words of a path that is read are identifiers. -/
theorem Path.spelled_of_parse? {source : String} {p : Path} (h : Path.parse? source = some p) :
    p.Spelled := by
  obtain ⟨ts, fuel, q, hts, hread, hsegments, hgenerics⟩ := exists_of_parse? h
  obtain ⟨hnames, hargs⟩ := ArgPath.spelled_tokens_iff.1 ((readersKeep fuel).path hts hread).1
  exact ⟨hsegments ▸ hnames, fun g hg => hargs g (hgenerics hg)⟩

lemma ArgPath.admits_of_parse? {fuel : ℕ} {ts rest : List Tree} {p : ArgPath}
    (h : ArgPath.parse? fuel ts = some (p, rest)) :
    ∀ i ∈ p.names, (i.isFree || typeWords.contains i.text) = true := by
  induction fuel generalizing ts rest p with
  | zero =>
    rw [ArgPath.parse?] at h
    cases h
  | succ fuel ih =>
    rw [ArgPath.parse?] at h
    obtain ⟨⟨name, afterName⟩, hname, h⟩ := Option.bind_eq_some_iff.1 h
    obtain ⟨⟨generics, afterArgs⟩, -, h⟩ := Option.bind_eq_some_iff.1 h
    have hname := (Ident.eq_cons_of_parse? hname).2
    dsimp only at h
    split at h
    · obtain ⟨⟨q, rest'⟩, hq, heq⟩ := Option.bind_eq_some_iff.1 h
      cases heq
      exact List.forall_mem_cons.2 ⟨hname, ih hq⟩
    · cases h
      exact List.forall_mem_singleton.2 hname

/-- The segments of a path that is read can be segments of a path to a type. -/
lemma Path.admits_of_parse? {source : String} {p : Path} (h : Path.parse? source = some p) :
    p.admits typeWords = true := by
  obtain ⟨ts, fuel, q, -, hread, hsegments, -⟩ := exists_of_parse? h
  rw [admits, hsegments, List.all_eq_true]
  exact ArgPath.admits_of_parse? hread

/-- A path that is read can stand anywhere if it does not start with `try` and its arguments come
after double colons. -/
lemma Path.isUnrestricted_of_parse? {source : String} {p : Path} (h : Path.parse? source = some p)
    (htry : p.startsWithTry = false) (hclosed : p.openGenerics = []) :
    p.isUnrestricted = true := by
  simp [isUnrestricted, stands, admits_of_parse? h, htry, hclosed]

end WireContract.Rust
