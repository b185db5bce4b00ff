import Mathlib.Data.List.Flatten
import WireContract.Proofs.PackageTree

/-!
# Names in one scope are distinct

Names are compared before they are escaped: members by their respelled names, declarations by their
names as they stand.  Escaping happens later.  It marks a keyword as raw or adds an underscore, and
keeps a variant called `Unknown` apart by an underscore, so it could make two names equal that the
comparison kept apart.

It does not, because a name that has to be escaped consists of letters and digits, and from such a
name escaping can be read back (`unescape`): underscores and the raw mark come from escaping alone.
Names of fields are compared escaped, so nothing is left to show for them.

The types generated beside unions and errors are named by suffixes.  The three suffixes end in
different letters, so two such names are equal only if they come from one declaration
(`Lawful.nodup_generatedNames`).
-/

namespace WireContract.Text

/-! ## Respelled names consist of letters and digits -/

lemma isAsciiAlphanumeric_iff {c : Char} : isAsciiAlphanumeric c = true ↔
    (97 ≤ c.toNat ∧ c.toNat ≤ 122) ∨ (65 ≤ c.toNat ∧ c.toNat ≤ 90) ∨
      (48 ≤ c.toNat ∧ c.toNat ≤ 57) := by
  simp [isAsciiAlphanumeric, isAsciiAlpha, isAsciiLower, isAsciiUpper, isAsciiDigit, Char.le_def,
    UInt32.le_iff_toNat_le, or_assoc]

lemma toNat_ofNat_of_lt {n : ℕ} (hn : n < 128) : (Char.ofNat n).toNat = n := by
  have hvalid : n.isValidChar := .inl (by omega)
  exact congrArg Char.toNat (dif_pos hvalid)

lemma isAsciiAlphanumeric_asciiUpper {c : Char} (hc : isAsciiAlphanumeric c = true) :
    isAsciiAlphanumeric (asciiUpper c) = true := by
  rw [asciiUpper]
  by_cases hlower : isAsciiLower c = true
  · have hrange : 97 ≤ c.toNat ∧ c.toNat ≤ 122 := by
      simpa [isAsciiLower, Char.le_def, UInt32.le_iff_toNat_le] using hlower
    rw [if_pos hlower, isAsciiAlphanumeric_iff, toNat_ofNat_of_lt (by omega)]
    omega
  · rwa [if_neg hlower]

lemma isAsciiAlphanumeric_asciiLower {c : Char} (hc : isAsciiAlphanumeric c = true) :
    isAsciiAlphanumeric (asciiLower c) = true := by
  rw [asciiLower]
  by_cases hupper : isAsciiUpper c = true
  · have hrange : 65 ≤ c.toNat ∧ c.toNat ≤ 90 := by
      simpa [isAsciiUpper, Char.le_def, UInt32.le_iff_toNat_le] using hupper
    rw [if_pos hupper, isAsciiAlphanumeric_iff, toNat_ofNat_of_lt (by omega)]
    omega
  · rwa [if_neg hupper]

/-- The pieces of a text hold its characters without the separator. -/
lemma mem_of_mem_splitOn {sep : Char} {cs piece : List Char} (hpiece : piece ∈ splitOn sep cs)
    {c : Char} (hc : c ∈ piece) : c ∈ cs ∧ c ≠ sep := by
  induction cs generalizing piece with
  | nil =>
    obtain rfl := List.mem_singleton.1 hpiece
    exact (List.not_mem_nil hc).elim
  | cons x cs ih =>
    obtain ⟨first, pieces, hsplit⟩ := List.exists_cons_of_ne_nil (splitOn_ne_nil sep cs)
    rw [hsplit] at ih
    rw [splitOn, hsplit] at hpiece
    by_cases hx : x = sep
    · simp only [hx, beq_self_eq_true, if_true] at hpiece
      rcases List.mem_cons.1 hpiece with rfl | hpiece
      · exact (List.not_mem_nil hc).elim
      · obtain ⟨hmem, hne⟩ := ih hpiece hc
        exact ⟨List.mem_cons_of_mem _ hmem, hne⟩
    · simp only [beq_iff_eq, hx, if_false] at hpiece
      rcases List.mem_cons.1 hpiece with rfl | hpiece
      · rcases List.mem_cons.1 hc with rfl | hc
        · exact ⟨List.mem_cons_self, hx⟩
        · obtain ⟨hmem, hne⟩ := ih List.mem_cons_self hc
          exact ⟨List.mem_cons_of_mem _ hmem, hne⟩
      · obtain ⟨hmem, hne⟩ := ih (List.mem_cons_of_mem _ hpiece) hc
        exact ⟨List.mem_cons_of_mem _ hmem, hne⟩

/-- The name consists of letters and digits. -/
def Alphanumeric (s : String) : Prop := ∀ c ∈ s.toList, isAsciiAlphanumeric c = true

lemma mem_pascalFrom {cs : List Char}
    (hcs : ∀ c ∈ cs, (isAsciiAlphanumeric c || isWordGap c) = true) (opening : Bool) :
    ∀ c ∈ pascalFrom opening cs, isAsciiAlphanumeric c = true := by
  induction cs generalizing opening with
  | nil => exact fun c hc => (List.not_mem_nil hc).elim
  | cons x cs ih =>
    rw [List.forall_mem_cons] at hcs
    rw [pascalFrom]
    by_cases hgap : isWordGap x = true
    · rw [if_pos hgap]
      exact ih hcs.2 true
    · have hx : isAsciiAlphanumeric x = true := by simpa [hgap] using hcs.1
      rw [if_neg hgap, List.forall_mem_cons]
      refine ⟨?_, ih hcs.2 false⟩
      cases opening with
      | false => exact hx
      | true => exact isAsciiAlphanumeric_asciiUpper hx

lemma alphanumeric_pascal {s : String} (hs : Schema.MemberIdentifier s) :
    Alphanumeric (pascal s) := by
  obtain ⟨x, cs, heq, hx, hcs⟩ := hs
  intro c hc
  rw [pascal, String.toList_ofList, heq] at hc
  refine mem_pascalFrom (List.forall_mem_cons.2 ⟨?_, fun y hy => ?_⟩) true c hc
  · simp [isAsciiAlphanumeric, hx]
  · have hy' := hcs y hy
    simp only [Bool.or_eq_true] at hy' ⊢
    rcases hy' with (halnum | hunder) | hhyphen
    · exact .inl halnum
    · exact .inr (by simp [isWordGap, hunder])
    · exact .inr (by simp [isWordGap, hhyphen])

lemma alphanumeric_variant {s : String} (hs : Schema.UpperSnakeCase s) :
    Alphanumeric (variant s) := by
  have hchars : ∀ c ∈ s.toList, c ≠ '_' → isAsciiAlphanumeric c = true := by
    obtain ⟨x, cs, words, heq, hx, hcs, hwords⟩ := hs
    have hconst : ∀ c, Schema.isConstantChar c = true → isAsciiAlphanumeric c = true := by
      intro c hc
      rw [Schema.isConstantChar, Bool.or_eq_true] at hc
      rcases hc with hc | hc
      · simp [isAsciiAlphanumeric, isAsciiAlpha, hc]
      · simp [isAsciiAlphanumeric, hc]
    intro c hc hne
    rw [heq] at hc
    rcases List.mem_cons.1 hc with rfl | hc
    · exact hconst c (Schema.isConstantChar_of_upper hx)
    · rcases List.mem_append.1 hc with hc | hc
      · exact hconst c (hcs c hc)
      · exact hconst c (by simpa [hne] using Schema.mem_underscored hwords hc)
  intro c hc
  rw [variant, String.toList_ofList] at hc
  obtain ⟨piece, hpiece, hc⟩ := List.mem_flatMap.1 hc
  have hplain : ∀ y ∈ piece, isAsciiAlphanumeric y = true := by
    intro y hy
    obtain ⟨hmem, hne⟩ := mem_of_mem_splitOn hpiece hy
    exact hchars y hmem hne
  cases piece with
  | nil => exact (List.not_mem_nil hc).elim
  | cons y ys =>
    rw [List.forall_mem_cons] at hplain
    rcases List.mem_cons.1 hc with rfl | hc
    · exact isAsciiAlphanumeric_asciiUpper hplain.1
    · obtain ⟨z, hz, rfl⟩ := List.mem_map.1 hc
      exact isAsciiAlphanumeric_asciiLower (hplain.2 z hz)

end WireContract.Text

namespace WireContract.Rust

open Text

/-! ## Reading an escaped name back -/

/-- An escaped name without the marks of escaping. -/
def unescape (s : String) : List Char :=
  match s.toList with
  | 'r' :: '#' :: cs => cs
  | cs => cs.filter (· != '_')

lemma ne_of_isAsciiAlphanumeric {c : Char} (hc : isAsciiAlphanumeric c = true) :
    c ≠ '_' ∧ c ≠ '#' := by
  constructor
  · rintro rfl
    exact absurd hc (by decide)
  · rintro rfl
    exact absurd hc (by decide)

/-- A name of letters and digits, whether an underscore follows it or not, is read as it stands. -/
lemma unescape_append {s t : String} (hs : Alphanumeric s) (ht : t = "" ∨ t = "_") :
    unescape (s ++ t) = s.toList := by
  have hhash : '#' ∉ (s ++ t).toList := by
    rw [String.toList_append, List.mem_append, not_or]
    refine ⟨fun hmem => (ne_of_isAsciiAlphanumeric (hs _ hmem)).2 rfl, ?_⟩
    rcases ht with rfl | rfl
    · decide
    · decide
  have hread : unescape (s ++ t) = (s ++ t).toList.filter (· != '_') := by
    unfold unescape
    split
    · rename_i cs heq
      rw [heq] at hhash
      simp at hhash
    · rfl
  have hkept : s.toList.filter (· != '_') = s.toList :=
    List.filter_eq_self.2 fun c hc => by simpa using (ne_of_isAsciiAlphanumeric (hs c hc)).1
  rw [hread, String.toList_append, List.filter_append, hkept]
  rcases ht with rfl | rfl
  · simp
  · simp

lemma unescape_rawIfKeyword {s : String} (hs : Alphanumeric s) :
    unescape (rawIfKeyword s) = s.toList := by
  unfold rawIfKeyword
  split
  · exact unescape_append hs (.inr rfl)
  · split
    · simp [unescape]
    · simpa using unescape_append hs (.inl rfl)

lemma unescape_variant {s : String} (hs : Alphanumeric s) :
    unescape (Ident.variant s).text = s.toList := by
  unfold Ident.variant
  split
  · rename_i hunknown
    rw [beq_iff_eq] at hunknown
    rw [hunknown] at hs ⊢
    exact unescape_append hs (.inr rfl)
  · exact unescape_rawIfKeyword hs

namespace Ident

/-- Escaping keeps names of letters and digits apart. -/
lemma ofName_inj {s t : String} (hs : Alphanumeric s) (ht : Alphanumeric t)
    (h : ofName s = ofName t) : s = t := by
  have hread : unescape (rawIfKeyword s) = unescape (rawIfKeyword t) :=
    congrArg unescape (Ident.mk.inj h)
  rw [unescape_rawIfKeyword hs, unescape_rawIfKeyword ht] at hread
  exact String.toList_inj.1 hread

lemma variant_inj {s t : String} (hs : Alphanumeric s) (ht : Alphanumeric t)
    (h : variant s = variant t) : s = t := by
  have hread : unescape (variant s).text = unescape (variant t).text := by rw [h]
  rw [unescape_variant hs, unescape_variant ht] at hread
  exact String.toList_inj.1 hread

/-- No variant has the name that is kept for unknown values. -/
lemma variant_ne_unknown {s : String} (hs : Alphanumeric s) :
    variant s ≠ ⟨unknownVariant⟩ := by
  intro h
  have hread := unescape_variant hs
  rw [h] at hread
  have hname : s = unknownVariant := by
    rw [← String.toList_inj, ← hread]
    decide
  rw [hname] at h
  exact absurd h (by decide)

/-- The variants of names that differ, with the one for unknown values, differ. -/
lemma nodup_variants {names : List String} (hnames : ∀ s ∈ names, Alphanumeric s)
    (hdistinct : names.Nodup) : (names.map variant ++ [Ident.mk unknownVariant]).Nodup := by
  have hvariants : (names.map variant).Nodup :=
    hdistinct.map_on fun s hs t ht => variant_inj (hnames s hs) (hnames t ht)
  refine hvariants.append (List.nodup_singleton _) ?_
  rw [List.disjoint_singleton]
  intro hmem
  obtain ⟨s, hs, heq⟩ := List.mem_map.1 hmem
  exact variant_ne_unknown (hnames s hs) heq

end Ident

end WireContract.Rust

/-! ## Generated names -/

namespace WireContract.Schema

open Text

lemma QualifiedName.eq_of_parts {a b : QualifiedName} (hmodule : a.module = b.module)
    (hname : a.name = b.name) : a = b := by
  cases a
  cases b
  exact congrArg₂ QualifiedName.mk hmodule hname

/-- The suffixes of the types that are generated beside declared ones. -/
def companionSuffixes : List String := ["Visitor", "VisitorWithOutput", "Parameters"]

/-- The names of the types generated for a declaration. -/
def Declaration.generatedNames (d : Declaration) : List QualifiedName := d.name :: d.companions

lemma Declaration.exists_suffix {d : Declaration} {q : QualifiedName} (hq : q ∈ d.companions) :
    ∃ s ∈ companionSuffixes, q = ⟨d.name.module, d.name.name ++ s⟩ := by
  cases d with
  | «alias» | enum | object => exact (List.not_mem_nil hq).elim
  | union u =>
    simp only [companions, List.mem_cons, List.not_mem_nil, or_false] at hq
    rcases hq with rfl | rfl
    · exact ⟨"Visitor", by decide, rfl⟩
    · exact ⟨"VisitorWithOutput", by decide, rfl⟩
  | error e =>
    obtain rfl := List.mem_singleton.1 hq
    exact ⟨"Parameters", by decide, rfl⟩

/-- A name with a suffix is made in one way: no two suffixes end in the same letter. -/
lemma suffix_unique {a b s t : String} (hs : s ∈ companionSuffixes) (ht : t ∈ companionSuffixes)
    (h : a ++ s = b ++ t) : a = b ∧ s = t := by
  have hends : ∀ s ∈ companionSuffixes, s.toList ≠ [] := by decide
  have hapart : ∀ s ∈ companionSuffixes, ∀ t ∈ companionSuffixes,
      s.toList.getLast? = t.toList.getLast? → s = t := by
    decide
  have hchars : a.toList ++ s.toList = b.toList ++ t.toList := by
    simpa using congrArg String.toList h
  have hst : s = t := by
    refine hapart s hs t ht ?_
    rw [← List.getLast?_append_of_ne_nil a.toList (hends s hs), hchars,
      List.getLast?_append_of_ne_nil b.toList (hends t ht)]
  rw [hst] at hchars
  exact ⟨String.toList_inj.1 (List.append_cancel_right hchars), hst⟩

/-- The names of all types generated for lawful declarations are distinct. -/
lemma Lawful.nodup_generatedNames {ds : List Declaration} (h : Lawful ds) :
    (ds.flatMap Declaration.generatedNames).Nodup := by
  have hfree : ∀ d ∈ ds, ∀ q ∈ d.companions, ∀ e ∈ ds, e.name ≠ q :=
    Registry.companions_free_iff.2 ⟨h.visitors, h.parameters⟩
  rw [List.nodup_flatMap]
  constructor
  · intro d hd
    refine List.nodup_cons.2 ⟨fun hmem => hfree d hd _ hmem d hd rfl, ?_⟩
    cases d with
    | «alias» | enum | object => exact List.nodup_nil
    | error => exact List.nodup_singleton _
    | union u =>
      refine List.nodup_cons.2 ⟨fun hmem => ?_, List.nodup_singleton _⟩
      have hname := congrArg QualifiedName.name (List.mem_singleton.1 hmem)
      have hsuffix := (suffix_unique (by decide) (by decide) hname).2
      exact absurd hsuffix (by decide)
  · refine (List.pairwise_map.1 h.distinct).imp_of_mem fun {d e} hd he hne => ?_
    -- a name of both is the name of both, the name of one and a companion of the other, or a
    -- companion of both, which has one suffix
    intro q hq hq'
    rcases List.mem_cons.1 hq with rfl | hq
    · rcases List.mem_cons.1 hq' with heq | hq'
      · exact hne heq
      · exact hfree e he _ hq' d hd rfl
    · rcases List.mem_cons.1 hq' with rfl | hq'
      · exact hfree d hd _ hq e he rfl
      · obtain ⟨s, hs, rfl⟩ := Declaration.exists_suffix hq
        obtain ⟨t, ht, heq⟩ := Declaration.exists_suffix hq'
        obtain ⟨hmodule, hname⟩ := QualifiedName.mk.inj heq
        have hsame : d.name.name = e.name.name := (suffix_unique hs ht hname).1
        exact hne (QualifiedName.eq_of_parts hmodule hsame)

lemma PascalCase.alphanumeric {s : String} (hs : PascalCase s) : Alphanumeric s := by
  obtain ⟨x, cs, heq, hx, hcs⟩ := hs
  intro c hc
  rw [heq] at hc
  rcases List.mem_cons.1 hc with rfl | hc
  · simp [isAsciiAlphanumeric, isAsciiAlpha, hx]
  · exact hcs c hc

lemma Declaration.WellFormed.alphanumeric {d : Declaration} (hd : d.WellFormed)
    {q : QualifiedName} (hq : q ∈ d.generatedNames) : Alphanumeric q.name := by
  have hname := hd.name.pascalCase.alphanumeric
  rcases List.mem_cons.1 hq with rfl | hq
  · exact hname
  · obtain ⟨s, hs, rfl⟩ := Declaration.exists_suffix hq
    have hsuffix : ∀ s ∈ companionSuffixes, s.toList.all isAsciiAlphanumeric = true := by decide
    intro c hc
    rw [String.toList_append] at hc
    rcases List.mem_append.1 hc with hc | hc
    · exact hname c hc
    · exact List.all_eq_true.1 (hsuffix s hs) c hc

lemma Declaration.module_of_mem_generatedNames {d : Declaration} {q : QualifiedName}
    (hq : q ∈ d.generatedNames) : q.module = d.name.module := by
  rcases List.mem_cons.1 hq with rfl | hq
  · rfl
  · obtain ⟨s, -, rfl⟩ := Declaration.exists_suffix hq
    rfl

end WireContract.Schema

namespace WireContract.Emit

open Rust Schema

/-! ## Types of a module -/

/-- The identifiers of the types generated for the declarations of a module. -/
def typeNames (c : Contract) (module : String) : List Ident :=
  ((c.registry.moduleDeclarations module).flatMap Declaration.generatedNames).map fun q =>
    .ofName q.name

/-- The types generated for a module are spelled differently. -/
lemma nodup_typeNames {doc : Document} {c : Contract} (hof : c.Of doc) (module : String) :
    (typeNames c module).Nodup := by
  have hsub : (c.registry.moduleDeclarations module).Sublist c.registry.declarations :=
    List.filter_sublist
  have hnodup := hof.lawful.nodup_generatedNames.sublist (hsub.flatMap _)
  refine hnodup.map_on fun q hq q' hq' heq => ?_
  obtain ⟨d, hd, hq⟩ := List.mem_flatMap.1 hq
  obtain ⟨d', hd', hq'⟩ := List.mem_flatMap.1 hq'
  have hmodule : ∀ e ∈ c.registry.moduleDeclarations module, e.name.module = module :=
    fun e he => by simpa using (List.mem_filter.1 he).2
  refine QualifiedName.eq_of_parts ?_ (Ident.ofName_inj ?_ ?_ heq)
  · rw [Declaration.module_of_mem_generatedNames hq, Declaration.module_of_mem_generatedNames hq',
      hmodule d hd, hmodule d' hd']
  · exact (hof.lawful.wellFormed d (hsub.subset hd)).alphanumeric hq
  · exact (hof.lawful.wellFormed d' (hsub.subset hd')).alphanumeric hq'

/-- The name of a type or trait that an item defines. -/
def typeName? : Item → Option Ident
  | .struct _ _ name _ => some name
  | .enum _ name _ => some name
  | .trait _ name _ => some name
  | _ => none

/-- The names of the types and traits that a file defines. -/
def SourceFile.typeNames (s : SourceFile) : List Ident := s.file.items.filterMap typeName?

/-- The names of the types and traits of a declaration in the file of a group. -/
def Group.typeNames (g : Group) (d : Declaration) : List Ident :=
  match g, d with
  | visitors, .union u => [.companion u.name.name outputVisitorSuffix]
  | _, .union u => [.ofName u.name.name, .companion u.name.name visitorSuffix]
  | _, .error e => [.companion e.name.name parametersSuffix, .ofName e.name.name]
  | _, d => [.ofName d.name.name]

lemma typeNames_items {scope : Scope} {server : Bool} {g : Group} {d : Declaration}
    (hg : g.has d = true) : (g.items scope server d).filterMap typeName? = g.typeNames d := by
  cases d with
  | «alias» a =>
    cases g with
    | aliases => rfl
    | _ => cases hg
  | enum e =>
    cases g with
    | enums => rfl
    | _ => cases hg
  | object o =>
    cases g with
    | objects => rfl
    | _ => cases hg
  | union u =>
    cases g with
    | unions => rfl
    | visitors => rfl
    | _ => cases hg
  | error e =>
    cases g with
    | errors => cases server <;> rfl
    | _ => cases hg

/-- The file of some declarations of a group defines their types: imports define none. -/
lemma typeNames_fileOf (c : Contract) (runtime : Path) (server : Bool) (module : String)
    {g : Group} {ds : List Declaration} (hds : ∀ d ∈ ds, g.has d = true) :
    (fileOf c runtime server module g ds).items.filterMap typeName? =
      ds.flatMap g.typeNames := by
  have himports : ∀ imports : Imports, imports.items.filterMap typeName? = [] := by
    intro imports
    rw [Imports.items, List.filterMap_map]
    exact List.filterMap_eq_nil_iff.2 fun p _ => rfl
  rw [fileOf, List.filterMap_append, himports, List.nil_append, List.filterMap_flatMap]
  exact List.flatMap_congr fun d hd => typeNames_items (hds d hd)

/-- The types of a module's files, group by group. -/
lemma typeNames_moduleFiles (c : Contract) (runtime : Path) (o : Options) (module : String) :
    (moduleFiles c runtime o module).flatMap SourceFile.typeNames =
      o.groups.flatMap fun g =>
        ((c.registry.moduleDeclarations module).filter g.has).flatMap g.typeNames := by
  rw [moduleFiles]
  generalize o.groups = groups
  induction groups with
  | nil => rfl
  | cons g groups ih =>
    rw [List.filterMap_cons, List.flatMap_cons, ← ih]
    by_cases hempty : (c.registry.moduleDeclarations module).filter g.has = []
    · simp [hempty]
    · simp only [List.isEmpty_iff, hempty, if_false, List.flatMap_cons]
      congr 1
      exact typeNames_fileOf c runtime o.server module fun d hd => (List.mem_filter.1 hd).2

/-- Going through declarations group by group gives what going through the groups of each
declaration gives. -/
lemma flatMap_groups_perm (groups : List Group) (ds : List Declaration) :
    (groups.flatMap fun g => (ds.filter g.has).flatMap g.typeNames).Perm
      (ds.flatMap fun d => groups.flatMap fun g => if g.has d then g.typeNames d else []) := by
  induction ds with
  | nil => simp
  | cons d ds ih =>
    have hsplit : ∀ g : Group, ((d :: ds).filter g.has).flatMap g.typeNames =
        (if g.has d then g.typeNames d else []) ++ (ds.filter g.has).flatMap g.typeNames := by
      intro g
      by_cases hg : g.has d = true
      · simp [hg]
      · simp [hg]
    simp only [hsplit, List.flatMap_cons]
    exact (List.flatMap_append_perm groups _ _).symm.trans (ih.append_left _)

/-- Over all groups, a declaration has the types generated for it. -/
lemma flatMap_all_perm (d : Declaration) :
    (Group.all.flatMap fun g => if g.has d then g.typeNames d else []).Perm
      (d.generatedNames.map fun q => .ofName q.name) := by
  cases d with
  | «alias» | enum | object | union => exact .refl _
  | error e => exact .swap _ _ _

/-- The files of a module define the types generated for it, or all but the visitors with values. -/
lemma typeNames_moduleFiles_subperm (c : Contract) (runtime : Path) (o : Options)
    (module : String) :
    ((moduleFiles c runtime o module).flatMap SourceFile.typeNames).Subperm (typeNames c module) ∧
      (o.visitors = true → ((moduleFiles c runtime o module).flatMap SourceFile.typeNames).Perm
        (typeNames c module)) := by
  have hall : (Group.all.flatMap fun g =>
      ((c.registry.moduleDeclarations module).filter g.has).flatMap g.typeNames).Perm
        (typeNames c module) := by
    refine (flatMap_groups_perm _ _).trans ?_
    rw [typeNames, List.map_flatMap]
    exact .flatMap_left _ fun d _ => flatMap_all_perm d
  rw [typeNames_moduleFiles]
  constructor
  · have hsub : o.groups.Sublist Group.all := List.filter_sublist
    exact (hsub.flatMap _).subperm.trans hall.subperm
  · intro hvisitors
    have hgroups : o.groups = Group.all := by
      rw [Options.groups, hvisitors]
      rfl
    rwa [hgroups]

/-! ## Names inside an item -/

/-- The names of the arguments of a function. -/
def argNames (s : Signature) : List Ident := s.args.map Prod.fst

/-- The arguments of a member of an implementation, if it is a function. -/
def implScope? : ImplMember → Option (List Ident)
  | .function _ _ s _ => some (argNames s)
  | _ => none

/-- The arguments of a member of a trait, if it is a function. -/
def traitScope? : TraitMember → Option (List Ident)
  | .function _ s => some (argNames s)
  | _ => none

/-- The lists of names that an item declares beside each other: fields, variants, and the arguments
of each function. -/
def scopes : Item → List (List Ident)
  | .struct _ _ _ (.named fields) => [fields.map (·.name)]
  | .enum _ _ variants => [variants.map (·.name)]
  | .trait _ _ members => members.filterMap traitScope?
  | .impl _ _ _ members => members.filterMap implScope?
  | _ => []

lemma nodup_objectFields {o : Object} (h : DistinctMembers fieldName (o.fields.map (·.name)))
    (scope : Scope) : ((objectFields scope o).map (·.name)).Nodup := by
  have hnames : (objectFields scope o).map (·.name) =
      ((o.fields.map (·.name)).map fieldName).map Ident.mk := by
    simp [objectFields, fieldOf, Ident.field]
  rw [hnames]
  exact h.distinct.map fun a b hab => Ident.mk.inj hab

lemma nodup_enumVariants {e : Enum} (h : DistinctMembers Text.variant (e.values.map (·.value)))
    (hcase : ∀ v ∈ e.values, UpperSnakeCase v.value) (scope : Scope) :
    ((enumVariants scope e).map (·.name)).Nodup := by
  have hnames : (enumVariants scope e).map (·.name) =
      ((e.values.map (·.value)).map Text.variant).map Ident.variant ++
        [⟨Ident.unknownVariant⟩] := by
    simp [enumVariants, Ident.enumVariant]
  rw [hnames]
  refine Ident.nodup_variants (fun s hs => ?_) h.distinct
  obtain ⟨value, hvalue, rfl⟩ := List.mem_map.1 hs
  obtain ⟨v, hv, rfl⟩ := List.mem_map.1 hvalue
  exact Text.alphanumeric_variant (hcase v hv)

lemma nodup_unionVariants {u : Union} (h : DistinctMembers Text.pascal (u.members.map (·.tag)))
    (scope : Scope) : ((unionVariants scope u).map (·.name)).Nodup := by
  have hnames : (unionVariants scope u).map (·.name) =
      ((u.members.map (·.tag)).map Text.pascal).map Ident.variant ++
        [⟨Ident.unknownVariant⟩] := by
    simp [unionVariants, Ident.memberVariant]
  rw [hnames]
  refine Ident.nodup_variants (fun s hs => ?_) h.distinct
  obtain ⟨tag, htag, rfl⟩ := List.mem_map.1 hs
  exact Text.alphanumeric_pascal (h.identifiers tag htag)

lemma nodup_params {e : ErrorDecl} (h : DistinctMembers fieldName (e.params.map (·.name))) :
    (e.params.map fun p => Ident.field p.name).Nodup := by
  have hnames : (e.params.map fun p => Ident.field p.name) =
      ((e.params.map (·.name)).map fieldName).map Ident.mk := by
    simp [Ident.field]
  rw [hnames]
  exact h.distinct.map fun a b hab => Ident.mk.inj hab

/-- The methods of a visitor have one argument each. -/
lemma nodup_visitMethods (scope : Scope) (u : Union) (result : Option Ty) :
    ∀ names ∈ (visitMethods scope u result).filterMap traitScope?, names.Nodup := by
  intro names hnames
  obtain ⟨m, hm, hscope⟩ := List.mem_filterMap.1 hnames
  rcases List.mem_append.1 hm with hm | hm
  · obtain ⟨member, -, rfl⟩ := List.mem_map.1 hm
    obtain rfl := Option.some.inj hscope
    exact List.nodup_singleton _
  · obtain rfl := List.mem_singleton.1 hm
    obtain rfl := Option.some.inj hscope
    exact List.nodup_singleton _

/-- The names in each scope of the items of an error are distinct: its parameters are the fields of
their record and the arguments of the constructor. -/
lemma nodup_scopes_errorItems {e : ErrorDecl}
    (h : DistinctMembers fieldName (e.params.map (·.name))) (scope : Scope) (server : Bool) :
    ∀ item ∈ errorItems scope server e, ∀ names ∈ scopes item, names.Nodup := by
  have hparams := nodup_params h
  have hrecord : ∀ names ∈ scopes (parametersItem scope e), names.Nodup := by
    simpa [scopes, parametersItem, paramFields, fieldOf, Function.comp_def] using hparams
  have hholder : (holderConstants scope e ++ holderFunctions scope e).filterMap implScope? =
      [e.params.map fun p => Ident.field p.name, [⟨"parameters"⟩], [], [], [], [],
        [⟨"names"⟩]] := by
    have hargs : (e.params.map fun p => Ident.field p.name) =
        (e.params.map fun p => (Ident.field p.name, scope.stored p.type false)).map Prod.fst := by
      simp
    rw [hargs]
    rfl
  have hfunctions : ∀ names ∈ (holderConstants scope e ++ holderFunctions scope e).filterMap
      implScope?, names.Nodup := by
    rw [hholder]
    simpa using hparams
  have hserver : ∀ item ∈ if server then serverItems scope (ownType e.name.name) else [],
      ∀ names ∈ scopes item, names.Nodup := by
    cases server with
    | false => simp
    | true => simp [serverItems, scopes, implScope?, argNames, getter, signature]
  rw [errorItems, List.forall_mem_append, List.forall_mem_append]
  refine ⟨⟨?_, ?_⟩, hserver⟩
  · simp only [List.forall_mem_cons, List.not_mem_nil, false_imp_iff, implies_true, and_true]
    refine ⟨hrecord, ?_, hfunctions, ?_, ?_, ?_⟩
    · simp [scopes]
    · simp [scopes, holderInterface, implScope?, argNames, signature]
    · simp [scopes, displayImpl, implScope?, argNames, signature]
    · simp [scopes]
  · simp [holderCodec, scopes, serializeImpl, deserializeImpl, implScope?, argNames]

/-- The names in each scope of the items of a well-formed declaration are distinct. -/
lemma nodup_scopes {d : Declaration} (hd : d.WellFormed) {g : Group} (hg : g.has d = true)
    (scope : Scope) (server : Bool) :
    ∀ item ∈ g.items scope server d, ∀ names ∈ scopes item, names.Nodup := by
  have hmembers := hd.members
  cases d with
  | «alias» a =>
    cases g with
    | aliases => simp [Group.items, aliasItems, scopes, implScope?, argNames, getter, signature]
    | _ => cases hg
  | enum e =>
    cases g with
    | enums =>
      obtain ⟨-, hdistinct, hcase⟩ := hmembers
      simp [Group.items, enumItems, scopes, implScope?, argNames, getter, signature, displayImpl,
        serializeImpl, deserializeImpl, nodup_enumVariants hdistinct hcase scope]
    | _ => cases hg
  | object o =>
    cases g with
    | objects => simp [Group.items, objectItems, scopes, nodup_objectFields hmembers scope]
    | _ => cases hg
  | union u =>
    obtain ⟨-, hdistinct, -⟩ := hmembers
    cases g with
    | unions =>
      simp only [Group.items, unionItems, List.forall_mem_cons, List.not_mem_nil, false_imp_iff,
        implies_true, and_true]
      refine ⟨?_, ?_, nodup_visitMethods scope u none, ?_, ?_⟩
      · simpa [scopes] using nodup_unionVariants hdistinct scope
      · simp [scopes, implScope?, argNames, getter, signature]
      · simp [scopes, implScope?, argNames, serializeImpl]
      · simp [scopes, implScope?, argNames, deserializeImpl]
    | visitors =>
      simp only [Group.items, visitorItems, List.forall_mem_cons, List.not_mem_nil, false_imp_iff,
        implies_true, and_true]
      refine ⟨nodup_visitMethods scope u _, ?_⟩
      simp [scopes, implScope?, argNames]
    | _ => cases hg
  | error e =>
    cases g with
    | errors => exact nodup_scopes_errorItems hmembers.2 scope server
    | _ => cases hg

/-- In a contract, names that are declared in one scope are distinct: the fields and variants of
each item and the arguments of each function; the variants of enumerations and unions and the one
for what the contract does not know; and the types that are generated for a module, which are those
that its files define. -/
theorem names_in_scope_distinct (doc : Document) (c : Contract)
    (h : Contract.ofDocument doc = .ok c) :
    (∀ d ∈ doc.declarations, ∀ g : Group, g.has d = true → ∀ scope server,
      ∀ item ∈ g.items scope server d, ∀ names ∈ scopes item, names.Nodup) ∧
    (∀ e, .enum e ∈ doc.declarations → ∀ v ∈ e.values,
      Ident.enumVariant v.value ≠ ⟨Ident.unknownVariant⟩) ∧
    (∀ u, .union u ∈ doc.declarations → ∀ m ∈ u.members,
      Ident.memberVariant m.tag ≠ ⟨Ident.unknownVariant⟩) ∧
    ∀ module, (typeNames c module).Nodup ∧ ∀ runtime o,
      ((moduleFiles c runtime o module).flatMap SourceFile.typeNames).Subperm
        (typeNames c module) ∧
      (o.visitors = true → ((moduleFiles c runtime o module).flatMap SourceFile.typeNames).Perm
        (typeNames c module)) := by
  have hof := Contract.of_ofDocument h
  have hwf : ∀ d ∈ doc.declarations, d.WellFormed :=
    fun d hd => hof.lawful.wellFormed d (hof.perm.mem_iff.2 hd)
  refine ⟨?_, ?_, ?_, fun module => ⟨nodup_typeNames hof module, ?_⟩⟩
  · intro d hd g hg scope server
    exact nodup_scopes (hwf d hd) hg scope server
  · intro e he v hv
    obtain ⟨-, -, hcase⟩ := (hwf _ he).members
    exact Ident.variant_ne_unknown (Text.alphanumeric_variant (hcase v hv))
  · intro u hu m hm
    obtain ⟨-, hdistinct, -⟩ := (hwf _ hu).members
    have htag := hdistinct.identifiers m.tag (List.mem_map_of_mem hm)
    exact Ident.variant_ne_unknown (Text.alphanumeric_pascal htag)
  · exact fun runtime o => typeNames_moduleFiles_subperm c runtime o module

/-- A union whose names all have to be escaped. -/
def selfUnion : Union :=
  ⟨⟨"words", "Self"⟩, [⟨"self", .primitive .string, none⟩, ⟨"unknown", .primitive .string, none⟩],
    none⟩

/-- The union with an enumeration whose values all have to be escaped. -/
def escapedNames : Document :=
  ⟨1, [.union selfUnion, .enum ⟨⟨"words", "Mood"⟩, [⟨"UNKNOWN", none⟩, ⟨"SELF", none⟩], none⟩]⟩

lemma isOk_escapedNames : (Contract.ofDocument escapedNames).isOk = true :=
  Contract.isOk_of_ranked (fun _ => 0) (by decide) rfl rfl (by decide)

/-- The union gets an underscore and its visitor does not, and of its variants all but the one for
members that are not known get one. -/
theorem names_in_scope_distinct_escapedNames :
    ∃ c, Contract.ofDocument escapedNames = .ok c ∧
      [⟨"Self_"⟩, ⟨"SelfVisitor"⟩] ⊆ typeNames c "words" ∧ (typeNames c "words").Nodup ∧
      ∀ scope server, ∃ item ∈ Group.unions.items scope server (.union selfUnion),
        scopes item = [[⟨"Self_"⟩, ⟨"Unknown_"⟩, ⟨"Unknown"⟩]] ∧
          ∀ names ∈ scopes item, names.Nodup := by
  obtain ⟨c, hc⟩ := Outcome.exists_ok_of_isOk isOk_escapedNames
  obtain ⟨hscopes, -, -, htypes⟩ := names_in_scope_distinct escapedNames c hc
  have hunion : .union selfUnion ∈ escapedNames.declarations := List.mem_cons_self
  have hmodule : .union selfUnion ∈ c.registry.moduleDeclarations "words" :=
    List.mem_filter.2 ⟨(Contract.of_ofDocument hc).perm.mem_iff.2 hunion, rfl⟩
  have hmem : ∀ q ∈ (Declaration.union selfUnion).generatedNames,
      Ident.ofName q.name ∈ typeNames c "words" :=
    fun q hq => List.mem_map.2 ⟨q, List.mem_flatMap.2 ⟨_, hmodule, hq⟩, rfl⟩
  refine ⟨c, hc, ?_, (htypes "words").1, fun scope server => ⟨_, List.mem_cons_self, ?_, ?_⟩⟩
  · rw [List.cons_subset, List.cons_subset]
    exact ⟨hmem ⟨"words", "Self"⟩ (by decide), hmem ⟨"words", "SelfVisitor"⟩ (by decide),
      List.nil_subset _⟩
  · rfl
  · exact hscopes _ hunion .unions rfl scope server _ List.mem_cons_self

end WireContract.Emit
