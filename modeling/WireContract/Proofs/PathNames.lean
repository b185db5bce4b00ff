import Mathlib.Data.List.TakeWhile
import WireContract.Proofs.DiskPlaces
import WireContract.Proofs.PackageTree

/-!
# The names in a path

A path is text, and its parent is found by cutting characters off its end; a disk follows the names
between its slashes.  The link between the two is `steps`, the names of a path that lead on: empty
names and single dots are passed over by both.  A parent lacks the last step of its path
(`parent?_spec`), so where a path leads is one step from where its parent leads
(`locate_parent`).  This step may be two dots, but then it leads to a directory that is there
already: what a path can newly create lies in what its parent leads to.
-/

namespace WireContract.Text

lemma splitOn_of_notMem {sep : Char} {cs : List Char} (h : sep ∉ cs) : splitOn sep cs = [cs] := by
  induction cs with
  | nil => rfl
  | cons c cs ih =>
    rw [List.mem_cons, not_or] at h
    simp [splitOn, ih h.2, Ne.symm h.1]

lemma splitOn_append (sep : Char) (cs cs' : List Char) :
    splitOn sep (cs ++ sep :: cs') = splitOn sep cs ++ splitOn sep cs' := by
  induction cs with
  | nil =>
    obtain ⟨piece, pieces, hsplit⟩ := List.exists_cons_of_ne_nil (splitOn_ne_nil sep cs')
    simp [splitOn, hsplit]
  | cons c cs ih =>
    obtain ⟨piece, pieces, hsplit⟩ := List.exists_cons_of_ne_nil (splitOn_ne_nil sep cs)
    rw [List.cons_append, splitOn, ih, splitOn, hsplit, List.cons_append]
    split_ifs <;> rfl

end WireContract.Text

namespace WireContract.Files

/-! ## Steps -/

/-- The names that lead on. -/
def steps (cs : List Char) : List String :=
  ((Text.splitOn '/' cs).map String.ofList).filter fun name => name != "" && name != "."

lemma steps_nil : steps [] = [] := by decide

lemma steps_append (cs cs' : List Char) : steps (cs ++ '/' :: cs') = steps cs ++ steps cs' := by
  simp only [steps, Text.splitOn_append, List.map_append, List.filter_append]

lemma steps_of_notMem {cs : List Char} (h : '/' ∉ cs) (hnil : cs ≠ []) (hdot : cs ≠ ['.']) :
    steps cs = [String.ofList cs] := by
  have hne : String.ofList cs ≠ "" := fun heq => hnil (String.ofList_injective heq)
  have hne' : String.ofList cs ≠ "." := fun heq => hdot (String.ofList_injective heq)
  simp [steps, Text.splitOn_of_notMem h, hne, hne']

lemma filter_namesOf (path : String) :
    (Disk.namesOf path).filter (· != ".") = steps path.toList := by
  have hdot : ∀ b c : Prop, ∀ [Decidable b] [Decidable c],
      (if b then [] else if c then ["."] else []).filter (· != ".") = [] := by
    intro b c _ _
    split_ifs <;> simp
  rw [Disk.namesOf, List.filter_append, hdot, List.append_nil, List.filter_filter, steps,
    Text.split]
  congr 1
  funext name
  exact Bool.and_comm _ _

/-! ## Parents -/

lemma trimTail_suffix (cs : List Char) : trimTail cs <:+ cs := by
  fun_induction trimTail cs with
  | case1 rest ih => exact ih.trans (List.suffix_cons _ _)
  | case2 rest ih => exact ih.trans ((List.suffix_cons _ _).trans (List.suffix_cons _ _))
  | case3 cs _ _ => exact List.suffix_rfl

lemma trimTail_ne_slash (cs rest : List Char) : trimTail cs ≠ '/' :: rest := by
  fun_induction trimTail cs with
  | case1 _ ih => exact ih
  | case2 _ ih => exact ih
  | case3 cs hslash _ => exact fun heq => hslash rest heq

lemma trimTail_ne_dot (cs rest : List Char) : trimTail cs ≠ '.' :: '/' :: rest := by
  fun_induction trimTail cs with
  | case1 _ ih => exact ih
  | case2 _ ih => exact ih
  | case3 cs _ hdot => exact fun heq => hdot rest heq

/-- What is cut off leads nowhere. -/
lemma steps_trimTail (cs : List Char) : steps (trimTail cs).reverse = steps cs.reverse := by
  fun_induction trimTail cs with
  | case1 rest ih => rw [ih, List.reverse_cons, steps_append, steps_nil, List.append_nil]
  | case2 rest ih =>
    have hdot : steps ['.'] = [] := by decide
    rw [ih, List.reverse_cons, List.reverse_cons, List.append_assoc, List.singleton_append,
      steps_append, hdot, List.append_nil]
  | case3 cs _ _ => rfl

/-- The characters before the first slash, and the rest. -/
lemma exists_name (cs : List Char) :
    ∃ name, '/' ∉ name ∧ cs = name ++ cs.dropWhile (· != '/') ∧
      (cs.dropWhile (· != '/') = [] ∨ ∃ rest, cs.dropWhile (· != '/') = '/' :: rest) := by
  refine ⟨cs.takeWhile (· != '/'), ?_, List.takeWhile_append_dropWhile.symm, ?_⟩
  · intro hmem
    simpa using List.mem_takeWhile_imp hmem
  · cases hrest : cs.dropWhile (· != '/') with
    | nil => exact Or.inl rfl
    | cons c rest =>
      have hne : cs.dropWhile (· != '/') ≠ [] := by simp [hrest]
      have hc := List.head_dropWhile_not (· != '/') hne
      simp only [hrest, List.head_cons, bne_eq_false_iff_eq] at hc
      exact Or.inr ⟨rest, by rw [hc]⟩

lemma isAbsolute_of_start {cs : List Char} {path : String} (hpre : cs <+: path.toList)
    (hne : cs ≠ []) : isAbsolute path = (cs.head? == some '/') := by
  obtain ⟨rest, hrest⟩ := hpre
  rw [isAbsolute, ← hrest, List.head?_append_of_ne_nil _ hne]

/-- How the parent comes from the characters of a path, last first: a last name, the slash before
it, and what is left. -/
lemma parent?_chars {path up : String} (h : parent? path = some up) (hup : up ≠ "") :
    ∃ name rest, trimTail path.toList.reverse = name ++ '/' :: rest ∧ name ≠ [] ∧ '/' ∉ name ∧
      (up = String.ofList (trimTail ('/' :: rest)).reverse ∨
        up = "/" ∧ isAbsolute path = true ∧ trimTail ('/' :: rest) = []) := by
  rw [parent?] at h
  split at h
  · cases h
  next hne =>
    obtain ⟨name, hname, hsplit, hend | ⟨rest, hend⟩⟩ := exists_name (trimTail path.toList.reverse)
    · -- without a slash the path is not absolute, and its parent is empty
      have habsolute : isAbsolute path = false := by
        have hpre := List.reverse_prefix.2 (trimTail_suffix path.toList.reverse)
        rw [List.reverse_reverse] at hpre
        rw [isAbsolute_of_start hpre (by simpa using hne)]
        rw [hend, List.append_nil] at hsplit
        rw [hsplit, beq_eq_false_iff_ne]
        exact fun hhead => hname (List.mem_reverse.1 (List.mem_of_mem_head? hhead))
      rw [hend, habsolute] at h
      exact absurd (Option.some.inj h).symm hup
    · rw [hend] at h hsplit
      refine ⟨name, rest, hsplit, ?_, hname, ?_⟩
      · rintro rfl
        exact trimTail_ne_slash _ rest hsplit
      · split at h
        case h_1 hnil =>
          split_ifs at h with habsolute
          · exact Or.inr ⟨(Option.some.inj h).symm, habsolute, hnil⟩
          · exact absurd (Option.some.inj h).symm hup
        · exact Or.inl (Option.some.inj h).symm

/-- A parent is the start of its path and lacks the last step of it; it has no slash at its end,
unless it is the root. -/
lemma parent?_spec {path up : String} (h : parent? path = some up) (hup : up ≠ "") :
    up.toList <+: path.toList ∧ (up = "/" ∨ up.toList.getLast? ≠ some '/') ∧
      ∃ name, steps path.toList = steps up.toList ++ [name] := by
  obtain ⟨name, rest, hcs, hne, hname, hcases⟩ := parent?_chars h hup
  have hsteps : steps path.toList =
      steps (trimTail ('/' :: rest)).reverse ++ steps name.reverse := by
    have htrim := steps_trimTail path.toList.reverse
    rw [List.reverse_reverse] at htrim
    rw [← htrim, hcs, steps_trimTail, List.reverse_append, List.reverse_cons, List.append_assoc,
      List.singleton_append, steps_append, steps_append, steps_nil, List.append_nil]
  have hlast : steps name.reverse = [String.ofList name.reverse] := by
    refine steps_of_notMem (by simpa using hname) (by simpa using hne) fun hdot => ?_
    obtain rfl : name = ['.'] := by simpa using congrArg List.reverse hdot
    exact trimTail_ne_dot _ rest hcs
  obtain rfl | ⟨rfl, habsolute, hnil⟩ := hcases
  · refine ⟨?_, Or.inr ?_, String.ofList name.reverse, ?_⟩
    · have hsuffix : trimTail ('/' :: rest) <:+ path.toList.reverse :=
        (trimTail_suffix _).trans ((List.suffix_append name _).trans (hcs ▸ trimTail_suffix _))
      simpa using List.reverse_prefix.2 hsuffix
    · rw [String.toList_ofList, List.getLast?_reverse]
      intro hhead
      obtain ⟨tail, htail⟩ := List.head?_eq_some_iff.1 hhead
      exact trimTail_ne_slash _ tail htail
    · rw [String.toList_ofList, hsteps, hlast]
  · refine ⟨?_, Or.inl rfl, String.ofList name.reverse, ?_⟩
    · obtain ⟨tail, htail⟩ := List.head?_eq_some_iff.1 (by simpa [isAbsolute] using habsolute)
      exact ⟨tail, htail.symm⟩
    · have hroot : steps "/".toList = [] := by decide
      rw [hsteps, hlast, hnil, hroot]
      rfl

/-- No parent but the root ends in a slash. -/
lemma unslashed_of_parent? {path up : String} (h : parent? path = some up) (hup : up ≠ "") :
    up = "/" ∨ Disk.unslashed up = up := by
  obtain ⟨-, hroot | hlast, -⟩ := parent?_spec h hup
  · exact Or.inl hroot
  · refine Or.inr (String.toList_injective ?_)
    rw [Disk.unslashed, String.toList_ofList]
    cases hrev : up.toList.reverse with
    | nil => simpa using hrev.symm
    | cons c rest =>
      rw [← List.head?_reverse, hrev, List.head?_cons] at hlast
      have hc : c ≠ '/' := fun heq => hlast (congrArg some heq)
      rw [List.dropWhile_cons_of_neg (by simpa using hc), ← hrev, List.reverse_reverse]

/-- Each path in the list of a path with all above it is followed by its parent. -/
lemma isChain_ancestors {path up : String} (h : parent? path = some up) :
    (path :: ancestors up).IsChain fun p p' => parent? p = some p' := by
  have hwithin : ∀ fuel path up, parent? path = some up →
      (path :: ancestorsWithin fuel up).IsChain fun p p' => parent? p = some p' := by
    intro fuel
    induction fuel with
    | zero =>
      intro path up h
      simpa [ancestorsWithin] using h
    | succ fuel ih =>
      intro path up h
      rw [ancestorsWithin]
      cases hup : parent? up with
      | none => simpa using h
      | some top => exact List.isChain_cons_cons.2 ⟨h, ih up top hup⟩
  exact hwithin up.length path up h

/-! ## Where steps lead -/

section Walk

open Disk

variable {d : Disk}

/-- Dots can be left out. -/
lemma walk_filter {place names q : List String} (h : d.walk place names = .ok q) :
    d.walk place (names.filter (· != ".")) = .ok q := by
  induction names generalizing place with
  | nil => exact h
  | cons name names ih =>
    rw [walk_cons_ok_iff] at h
    by_cases hdot : name = "."
    · rw [if_pos hdot] at h
      rw [List.filter_cons_of_neg (by simp [hdot])]
      exact ih h.2.2
    · rw [List.filter_cons_of_pos (by simp [hdot]), walk_cons_ok_iff]
      exact ⟨h.1, h.2.1, ih h.2.2⟩

/-- Where names lead to a directory, they start from one. -/
lemma isDir_of_walk {place names q : List String} (h : d.walk place names = .ok q)
    (hq : d.get? q = some .dir) : d.get? place = some .dir := by
  cases names with
  | nil =>
    obtain rfl := Except.ok.inj h
    exact hq
  | cons name names => exact (walk_cons_ok_iff.1 h).1

/-- Dots can be put in on the way to a directory. -/
lemma walk_of_filter {place names q : List String}
    (h : d.walk place (names.filter (· != ".")) = .ok q) (hq : d.get? q = some .dir) :
    d.walk place names = .ok q := by
  induction names generalizing place with
  | nil => exact h
  | cons name names ih =>
    rw [walk_cons_ok_iff]
    by_cases hdot : name = "."
    · rw [List.filter_cons_of_neg (by simp [hdot])] at h
      rw [if_pos hdot]
      exact ⟨isDir_of_walk h hq, by rw [hdot]; decide, ih h⟩
    · rw [List.filter_cons_of_pos (by simp [hdot]), walk_cons_ok_iff] at h
      exact ⟨h.1, h.2.1, ih h.2.2⟩

lemma walk_steps {path : String} {q : List String} (h : d.locate path = .ok q) :
    d.walk (d.start path) (steps path.toList) = .ok q := by
  rw [locate] at h
  split_ifs at h
  rw [← filter_namesOf]
  exact walk_filter h

lemma locate_of_steps {path : String} {q : List String} (husable : isUsable path = true)
    (h : d.walk (d.start path) (steps path.toList) = .ok q) (hq : d.get? q = some .dir) :
    d.locate path = .ok q := by
  rw [← filter_namesOf] at h
  rw [locate, if_pos husable]
  exact walk_of_filter h hq

lemma isUsable_of_start {path up : String} (hpre : up.toList <+: path.toList)
    (h : isUsable path = true) : isUsable up = true := by
  obtain ⟨rest, hrest⟩ := hpre
  obtain rfl : path = up ++ String.ofList rest := String.toList_injective (by simp [hrest])
  simp only [isUsable, Bool.and_eq_true, decide_eq_true_eq, String.utf8ByteSize_append,
    String.toList_append, List.contains_append, Bool.not_or] at h ⊢
  exact ⟨by omega, h.2.1⟩

/-- What is not yet a directory lies in what the parent of its path leads to. -/
theorem locate_parent (hd : d.WellFormed) {path up : String} (hparent : parent? path = some up)
    (hup : up ≠ "") {place : List String} (hpath : d.locate path = .ok place)
    (hdir : d.get? place ≠ some .dir) : ∃ q, d.locate up = .ok q ∧ q <+: place := by
  obtain ⟨hpre, -, name, hsteps⟩ := parent?_spec hparent hup
  have husable : isUsable path = true := by
    by_contra husable
    rw [locate, if_neg husable] at hpath
    cases hpath
  have hne : up.toList ≠ [] := fun hnil => hup (String.toList_injective hnil)
  have hstart : d.start path = d.start up := by
    rw [start, start, isAbsolute_of_start hpre hne, ← isAbsolute]
  have hwalk := walk_steps hpath
  rw [hsteps, walk_append] at hwalk
  obtain ⟨q, hq, hlast⟩ := hwalk
  obtain ⟨hqdir, -, hlast⟩ := walk_cons_ok_iff.1 hlast
  refine ⟨q, locate_of_steps (isUsable_of_start hpre husable) (hstart ▸ hq) hqdir, ?_⟩
  obtain rfl := Except.ok.inj hlast
  split_ifs at hdir ⊢
  · exact List.prefix_rfl
  · -- two dots lead up from a directory, where a directory is
    obtain rfl | hnil := eq_or_ne q []
    · exact List.prefix_rfl
    · exact absurd (hd.parent q hnil (by simp [hqdir])) hdir
  · exact List.prefix_append _ _

end Walk

/-! ## Joined paths -/

/-- A name that leads down. -/
structure IsPlainName (name : String) : Prop where
  noSlash : '/' ∉ name.toList
  ne_empty : name ≠ ""
  ne_dot : name ≠ "."
  ne_dots : name ≠ ".."

lemma IsPlainName.steps {name : String} (h : IsPlainName name) : steps name.toList = [name] := by
  rw [steps_of_notMem h.noSlash, String.ofList_toList]
  · exact fun hnil => h.ne_empty (String.toList_injective hnil)
  · exact fun hdot => h.ne_dot (String.toList_injective hdot)

lemma steps_join_names {names : List String} (h : ∀ name ∈ names, IsPlainName name) :
    steps (Text.join "/" names).toList = names := by
  induction names with
  | nil => exact steps_nil
  | cons name names ih =>
    obtain ⟨hname, hnames⟩ := List.forall_mem_cons.1 h
    cases names with
    | nil => exact hname.steps
    | cons name' names =>
      have htext : (Text.join "/" (name :: name' :: names)).toList =
          name.toList ++ '/' :: (Text.join "/" (name' :: names)).toList := by
        simp [Text.join]
      rw [htext, steps_append, hname.steps, ih hnames]
      rfl

lemma steps_join (dir name : String) :
    steps (join dir name).toList = steps dir.toList ++ steps name.toList := by
  unfold join
  split_ifs with hempty hslash
  · obtain rfl : dir = "" := by simpa using hempty
    rfl
  · obtain ⟨before, hbefore⟩ := List.getLast?_eq_some_iff.1 (by simpa using hslash)
    rw [String.toList_append, hbefore, List.append_assoc, List.singleton_append, steps_append,
      steps_append, steps_nil, List.append_nil]
  · have htext : (dir ++ "/" ++ name).toList = dir.toList ++ '/' :: name.toList := by simp
    rw [htext, steps_append]

lemma isAbsolute_join_names {names : List String} (h : ∀ name ∈ names, IsPlainName name) :
    isAbsolute (Text.join "/" names) = false := by
  cases names with
  | nil => decide
  | cons name names =>
    have hname := h name List.mem_cons_self
    have hpre : name.toList <+: (Text.join "/" (name :: names)).toList := by
      cases names with
      | nil => exact List.prefix_rfl
      | cons name' names => simp [Text.join]
    rw [isAbsolute_of_start hpre fun hnil => hname.ne_empty (String.toList_injective hnil),
      beq_eq_false_iff_ne]
    exact fun hhead => hname.noSlash (List.mem_of_mem_head? hhead)

lemma isAbsolute_join {dir name : String} (h : isAbsolute name = false) :
    isAbsolute (join dir name) = isAbsolute dir := by
  by_cases hempty : dir.isEmpty
  · obtain rfl : dir = "" := by simpa using hempty
    exact h
  · have hne : dir.toList ≠ [] := by simpa using hempty
    have hpre : dir.toList <+: (join dir name).toList := by
      rw [join, if_neg hempty]
      split_ifs <;> simp
    rw [isAbsolute_of_start hpre hne, isAbsolute]

section Places

open Disk

variable {d : Disk}

lemma walk_plain {names : List String} (h : ∀ name ∈ names, IsPlainName name)
    {place q : List String} (hwalk : d.walk place names = .ok q) : q = place ++ names := by
  induction names generalizing place with
  | nil => rw [← Except.ok.inj hwalk, List.append_nil]
  | cons name names ih =>
    obtain ⟨hname, hnames⟩ := List.forall_mem_cons.1 h
    rw [walk_cons_ok_iff, if_neg hname.ne_dot, if_neg hname.ne_dots] at hwalk
    rw [ih hnames hwalk.2.2, List.append_assoc, List.singleton_append]

/-- Names joined to a directory lead down from where the directory leads. -/
lemma locate_joined {dir : String} {names : List String} (h : ∀ name ∈ names, IsPlainName name)
    {place : List String} (hpath : d.locate (join dir (Text.join "/" names)) = .ok place) :
    ∃ q, d.walk (d.start dir) (steps dir.toList) = .ok q ∧ place = q ++ names := by
  have hwalk := walk_steps hpath
  rw [steps_join, steps_join_names h, start, isAbsolute_join (isAbsolute_join_names h), ← start,
    walk_append] at hwalk
  obtain ⟨q, hq, hnames⟩ := hwalk
  exact ⟨q, hq, walk_plain h hnames⟩

/-- Different names below one directory lead to different places. -/
lemma locate_joined_ne {dir : String} {names names' : List String} (hne : names ≠ names')
    (h : ∀ name ∈ names, IsPlainName name) (h' : ∀ name ∈ names', IsPlainName name)
    {place : List String} (hpath : d.locate (join dir (Text.join "/" names)) = .ok place) :
    d.locate (join dir (Text.join "/" names')) ≠ .ok place := by
  intro hpath'
  obtain ⟨q, hq, rfl⟩ := locate_joined h hpath
  obtain ⟨q', hq', heq⟩ := locate_joined h' hpath'
  obtain rfl := Except.ok.inj (hq.symm.trans hq')
  exact hne (List.append_cancel_left heq)

end Places

end WireContract.Files
