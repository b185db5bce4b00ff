import Mathlib.Data.List.Forall2
import Mathlib.Data.List.Nodup
import Mathlib.Tactic.Common
import WireContract.Json.Draft
import WireContract.Proofs.Outcome

/-!
# Values that are read whole

A tagged member, and every free JSON value, is taken from its draft as a whole.  The result has each
key of an object once (`complete_distinct`): a repeated key keeps its last value.  What becomes of
a value that was whole before, possibly with other numbers, is said exactly by
`complete_draftWith_iff`: it is read if it does not nest too deep and its numbers are read, and
gives the value with its numbers replaced and its keys made distinct.

Values nest in lists, so inductions over them go through `Json.induct`, whose hypotheses are about
the members of the list.
-/

namespace WireContract.Json

open Outcome

/-! ## Induction over values -/

/-- Induction over values: an array or object has the property if its items or fields do. -/
theorem induct {P : Json → Prop} (null : P .null) (bool : ∀ b, P (.bool b)) (num : ∀ n, P (.num n))
    (str : ∀ s, P (.str s)) (arr : ∀ items, (∀ x ∈ items, P x) → P (.arr items))
    (obj : ∀ fields, (∀ p ∈ fields, P p.2) → P (.obj fields)) (j : Json) : P j := by
  match j with
  | .null => exact null
  | .bool b => exact bool b
  | .num n => exact num n
  | .str s => exact str s
  | .arr items => exact arr items fun x hx => induct null bool num str arr obj x
  | .obj fields => exact obj fields fun p hp => induct null bool num str arr obj p.2
termination_by sizeOf j
decreasing_by
  · have := List.sizeOf_lt_of_mem hx
    simp only [Json.arr.sizeOf_spec]
    omega
  · have hlt := List.sizeOf_lt_of_mem hp
    have hsnd : sizeOf p.2 < sizeOf p := by
      cases p
      simp only [Prod.mk.sizeOf_spec]
      omega
    simp only [Json.obj.sizeOf_spec]
    omega

/-- Every number in the value has the property. -/
inductive AllNumbers (P : Number → Prop) : Json → Prop where
  | null : AllNumbers P .null
  | bool (b : Bool) : AllNumbers P (.bool b)
  | num {n : Number} (h : P n) : AllNumbers P (.num n)
  | str (s : String) : AllNumbers P (.str s)
  | arr {items : List Json} (h : ∀ x ∈ items, AllNumbers P x) : AllNumbers P (.arr items)
  | obj {fields : List (String × Json)} (h : ∀ p ∈ fields, AllNumbers P p.2) :
      AllNumbers P (.obj fields)

@[simp] lemma allNumbers_num_iff {P : Number → Prop} {n : Number} :
    AllNumbers P (.num n) ↔ P n :=
  ⟨fun h => by cases h; assumption, .num⟩

@[simp] lemma allNumbers_arr_iff {P : Number → Prop} {items : List Json} :
    AllNumbers P (.arr items) ↔ ∀ x ∈ items, AllNumbers P x :=
  ⟨fun h => by cases h; assumption, .arr⟩

@[simp] lemma allNumbers_obj_iff {P : Number → Prop} {fields : List (String × Json)} :
    AllNumbers P (.obj fields) ↔ ∀ p ∈ fields, AllNumbers P p.2 :=
  ⟨fun h => by cases h; assumption, .obj⟩

lemma allNumbers_of_forall {P : Number → Prop} (h : ∀ n, P n) (j : Json) : AllNumbers P j := by
  induction j using induct with
  | null => exact .null
  | bool b => exact .bool b
  | num n => exact .num (h n)
  | str s => exact .str s
  | arr items ih => exact .arr ih
  | obj fields ih => exact .obj ih

/-! ## Numbers replaced -/

mutual

/-- The value with each number replaced. -/
def mapNumbers (g : Number → Number) : Json → Json
  | .num n => .num (g n)
  | .arr items => .arr (mapNumbersItems g items)
  | .obj fields => .obj (mapNumbersFields g fields)
  | j => j

/-- The items with each number replaced. -/
def mapNumbersItems (g : Number → Number) : List Json → List Json
  | [] => []
  | x :: xs => mapNumbers g x :: mapNumbersItems g xs

/-- The fields with each number replaced. -/
def mapNumbersFields (g : Number → Number) : List (String × Json) → List (String × Json)
  | [] => []
  | (k, x) :: xs => (k, mapNumbers g x) :: mapNumbersFields g xs

end

@[simp] lemma mapNumbersItems_eq_map (g : Number → Number) (items : List Json) :
    mapNumbersItems g items = items.map (mapNumbers g) := by
  induction items with
  | nil => rfl
  | cons x xs ih => rw [mapNumbersItems, ih, List.map_cons]

@[simp] lemma mapNumbersFields_eq_map (g : Number → Number) (fields : List (String × Json)) :
    mapNumbersFields g fields = fields.map fun p => (p.1, mapNumbers g p.2) := by
  induction fields with
  | nil => rfl
  | cons p xs ih => rw [mapNumbersFields, ih, List.map_cons]

mutual

/-- The draft of a value whose numbers are read in some way. -/
def draftWith (read : Number → Except Fault Number) : Json → Draft
  | .null => .null
  | .bool b => .bool b
  | .num n => .num (read n)
  | .str s => .str (.ok s)
  | .arr items => .arr (draftItems read items) none
  | .obj fields => .obj (draftFields read fields) none

/-- The drafts of items. -/
def draftItems (read : Number → Except Fault Number) : List Json → List Draft
  | [] => []
  | x :: xs => draftWith read x :: draftItems read xs

/-- The drafts of fields. -/
def draftFields (read : Number → Except Fault Number) :
    List (String × Json) → List (Except Fault String × Draft)
  | [] => []
  | (k, x) :: xs => (.ok k, draftWith read x) :: draftFields read xs

end

@[simp] lemma draftItems_eq_map (read : Number → Except Fault Number) (items : List Json) :
    draftItems read items = items.map (draftWith read) := by
  induction items with
  | nil => rfl
  | cons x xs ih => rw [draftItems, ih, List.map_cons]

@[simp] lemma draftFields_eq_map (read : Number → Except Fault Number)
    (fields : List (String × Json)) :
    draftFields read fields = fields.map fun p => (.ok p.1, draftWith read p.2) := by
  induction fields with
  | nil => rfl
  | cons p xs ih => rw [draftFields, ih, List.map_cons]

lemma ofItems_eq_map (items : List Json) : Draft.ofItems items = items.map Draft.ofJson := by
  induction items with
  | nil => rfl
  | cons x xs ih => rw [Draft.ofItems, ih, List.map_cons]

lemma ofFields_eq_map (fields : List (String × Json)) :
    Draft.ofFields fields = fields.map fun p => (.ok p.1, Draft.ofJson p.2) := by
  induction fields with
  | nil => rfl
  | cons p xs ih => rw [Draft.ofFields, ih, List.map_cons]

/-- The draft of a whole value is the one whose numbers are as they are. -/
lemma draftWith_ok (j : Json) : draftWith .ok j = Draft.ofJson j := by
  induction j using induct with
  | null | bool | num | str => rfl
  | arr items ih =>
    rw [draftWith, Draft.ofJson, draftItems_eq_map, ofItems_eq_map]
    exact congrArg (Draft.arr · none) (List.map_congr_left ih)
  | obj fields ih =>
    rw [draftWith, Draft.ofJson, draftFields_eq_map, ofFields_eq_map]
    refine congrArg (Draft.obj · none) (List.map_congr_left fun p hp => ?_)
    rw [ih p hp]

/-! ## Depth -/

lemma depthItems_le_iff {items : List Json} {n : ℕ} :
    depthItems items ≤ n ↔ ∀ x ∈ items, x.depth ≤ n := by
  induction items with
  | nil => simp [depthItems]
  | cons x xs ih => rw [depthItems, Nat.max_le, ih, List.forall_mem_cons]

lemma depthFields_le_iff {fields : List (String × Json)} {n : ℕ} :
    depthFields fields ≤ n ↔ ∀ p ∈ fields, p.2.depth ≤ n := by
  induction fields with
  | nil => simp [depthFields]
  | cons p xs ih => rw [depthFields, Nat.max_le, ih, List.forall_mem_cons]

/-- An array nests one level deeper than its items. -/
lemma depth_arr_lt_iff {items : List Json} {limit : ℕ} :
    (Json.arr items).depth < limit ↔ 1 < limit ∧ ∀ x ∈ items, x.depth < limit - 1 := by
  rw [depth]
  constructor
  · intro h
    refine ⟨by omega, fun x hx => ?_⟩
    have hle := depthItems_le_iff.1 (Nat.le_refl (depthItems items)) x hx
    omega
  · rintro ⟨hlimit, h⟩
    have hle : depthItems items ≤ limit - 2 :=
      depthItems_le_iff.2 fun x hx => by have := h x hx; omega
    omega

/-- An object nests one level deeper than its fields. -/
lemma depth_obj_lt_iff {fields : List (String × Json)} {limit : ℕ} :
    (Json.obj fields).depth < limit ↔ 1 < limit ∧ ∀ p ∈ fields, p.2.depth < limit - 1 := by
  rw [depth]
  constructor
  · intro h
    refine ⟨by omega, fun p hp => ?_⟩
    have hle := depthFields_le_iff.1 (Nat.le_refl (depthFields fields)) p hp
    omega
  · rintro ⟨hlimit, h⟩
    have hle : depthFields fields ≤ limit - 2 :=
      depthFields_le_iff.2 fun p hp => by have := h p hp; omega
    omega

/-! ## Keys made distinct -/

lemma map_eq_self_iff {α : Type} {f : α → α} {l : List α} : l.map f = l ↔ ∀ x ∈ l, f x = x := by
  induction l with
  | nil => simp
  | cons x xs ih => rw [List.map_cons, List.cons.injEq, ih, List.forall_mem_cons]

lemma map_fst_insert (fields : List (String × Json)) (key : String) (v : Json) :
    (insert fields key v).map Prod.fst =
      if key ∈ fields.map Prod.fst then fields.map Prod.fst else fields.map Prod.fst ++ [key] := by
  induction fields with
  | nil => simp [insert]
  | cons p fields ih =>
    obtain ⟨k, x⟩ := p
    rw [insert]
    by_cases hk : k = key
    · rw [if_pos (beq_iff_eq.2 hk)]
      simp [hk]
    · rw [if_neg (fun h => hk (beq_iff_eq.1 h)), List.map_cons, ih]
      by_cases hmem : key ∈ fields.map Prod.fst
      · rw [if_pos hmem, if_pos (by simpa using Or.inr (by simpa using hmem))]
        rfl
      · rw [if_neg hmem, if_neg (by simpa [Ne.symm hk] using hmem)]
        rfl

lemma nodup_insert {fields : List (String × Json)} (h : (fields.map Prod.fst).Nodup) (key : String)
    (v : Json) : ((insert fields key v).map Prod.fst).Nodup := by
  rw [map_fst_insert]
  split
  · exact h
  · rename_i hmem
    exact List.nodup_append'.2 ⟨h, List.nodup_singleton key, by simpa using hmem⟩

lemma of_mem_insert {fields : List (String × Json)} {key : String} {v : Json} {p : String × Json}
    (h : p ∈ insert fields key v) : p ∈ fields ∨ p = (key, v) := by
  induction fields with
  | nil => exact Or.inr (List.mem_singleton.1 h)
  | cons q fields ih =>
    rw [insert] at h
    split at h
    · rename_i hk
      rcases List.mem_cons.1 h with rfl | h
      · exact Or.inr (by rw [beq_iff_eq.1 hk])
      · exact Or.inl (List.mem_cons_of_mem _ h)
    · rcases List.mem_cons.1 h with rfl | h
      · exact Or.inl List.mem_cons_self
      · exact (ih h).imp_left (List.mem_cons_of_mem _)

/-- A key that is not there is put at the end. -/
lemma insert_of_notMem {fields : List (String × Json)} {key : String}
    (h : key ∉ fields.map Prod.fst) (v : Json) : insert fields key v = fields ++ [(key, v)] := by
  induction fields with
  | nil => rfl
  | cons p fields ih =>
    rw [List.map_cons, List.mem_cons, not_or] at h
    rw [insert, if_neg (fun heq => h.1 (beq_iff_eq.1 heq).symm), ih h.2]
    rfl

@[simp] lemma distinctItems_eq_map (items : List Json) :
    distinctItems items = items.map distinct := by
  induction items with
  | nil => rfl
  | cons x xs ih => rw [distinctItems, ih, List.map_cons]

lemma nodup_distinctFields {acc : List (String × Json)} (h : (acc.map Prod.fst).Nodup)
    (fields : List (String × Json)) : ((distinctFields acc fields).map Prod.fst).Nodup := by
  induction fields generalizing acc with
  | nil => exact h
  | cons p fields ih => exact ih (nodup_insert h p.1 _)

/-- Fields whose keys are distinct stay in place. -/
lemma distinctFields_eq_of_nodup {acc fields : List (String × Json)}
    (h : ((acc ++ fields).map Prod.fst).Nodup) :
    distinctFields acc fields = acc ++ fields.map fun p => (p.1, p.2.distinct) := by
  induction fields generalizing acc with
  | nil => simp [distinctFields]
  | cons p fields ih =>
    have hfresh : p.1 ∉ acc.map Prod.fst := by
      rw [List.map_append, List.nodup_append'] at h
      exact fun hmem => h.2.2 hmem (by simp)
    rw [distinctFields, insert_of_notMem hfresh, ih, List.append_assoc]
    · rfl
    · simpa [List.append_assoc] using h

lemma distinct_arr_iff {items : List Json} :
    (Json.arr items).distinct = .arr items ↔ ∀ x ∈ items, x.distinct = x := by
  rw [distinct, Json.arr.injEq, distinctItems_eq_map]
  exact map_eq_self_iff

/-- An object has its keys once if they are distinct and its fields have theirs once. -/
lemma distinct_obj_iff {fields : List (String × Json)} :
    (Json.obj fields).distinct = .obj fields ↔
      (fields.map Prod.fst).Nodup ∧ ∀ p ∈ fields, p.2.distinct = p.2 := by
  rw [distinct, Json.obj.injEq]
  constructor
  · intro h
    have hnodup : (fields.map Prod.fst).Nodup := by
      rw [← h]
      exact nodup_distinctFields (by simp) fields
    rw [distinctFields_eq_of_nodup (by simpa using hnodup), List.nil_append] at h
    refine ⟨hnodup, fun p hp => ?_⟩
    exact congrArg Prod.snd (map_eq_self_iff.1 h p hp)
  · rintro ⟨hnodup, hfields⟩
    rw [distinctFields_eq_of_nodup (by simpa using hnodup), List.nil_append]
    exact map_eq_self_iff.2 fun p hp => by rw [hfields p hp]

/-! ## Values with their numbers replaced -/

lemma insert_map (f : Json → Json) (fields : List (String × Json)) (key : String) (v : Json) :
    insert (fields.map fun p => (p.1, f p.2)) key (f v) =
      (insert fields key v).map fun p => (p.1, f p.2) := by
  induction fields with
  | nil => rfl
  | cons p fields ih =>
    rw [List.map_cons, insert, insert]
    split
    · rfl
    · rw [ih]
      rfl

lemma distinctFields_map {f : Json → Json} {fields : List (String × Json)}
    (h : ∀ p ∈ fields, (f p.2).distinct = f p.2.distinct) (acc : List (String × Json)) :
    distinctFields (acc.map fun p => (p.1, f p.2)) (fields.map fun p => (p.1, f p.2)) =
      (distinctFields acc fields).map fun p => (p.1, f p.2) := by
  induction fields generalizing acc with
  | nil => rfl
  | cons p fields ih =>
    rw [List.forall_mem_cons] at h
    rw [List.map_cons, distinctFields, h.1, insert_map, ih h.2, distinctFields]

/-- Keys are made distinct whatever the numbers are. -/
theorem distinct_mapNumbers (g : Number → Number) (j : Json) :
    (j.mapNumbers g).distinct = j.distinct.mapNumbers g := by
  induction j using induct with
  | null | bool | num | str => rfl
  | arr items ih =>
    rw [mapNumbers, distinct, distinct, mapNumbers]
    simp only [mapNumbersItems_eq_map, distinctItems_eq_map, List.map_map]
    exact congrArg Json.arr (List.map_congr_left ih)
  | obj fields ih =>
    rw [mapNumbers, distinct, distinct, mapNumbers]
    simp only [mapNumbersFields_eq_map]
    exact congrArg Json.obj (distinctFields_map ih [])

lemma depthItems_map {f : Json → Json} {items : List Json}
    (h : ∀ x ∈ items, (f x).depth = x.depth) : depthItems (items.map f) = depthItems items := by
  induction items with
  | nil => rfl
  | cons x xs ih =>
    rw [List.forall_mem_cons] at h
    rw [List.map_cons, depthItems, depthItems, h.1, ih h.2]

lemma depthFields_map {f : Json → Json} {fields : List (String × Json)}
    (h : ∀ p ∈ fields, (f p.2).depth = p.2.depth) :
    depthFields (fields.map fun p => (p.1, f p.2)) = depthFields fields := by
  induction fields with
  | nil => rfl
  | cons p ps ih =>
    rw [List.forall_mem_cons] at h
    rw [List.map_cons, depthFields, depthFields, h.1, ih h.2]

/-- A value nests as deep whatever its numbers are. -/
lemma depth_mapNumbers (g : Number → Number) (j : Json) : (j.mapNumbers g).depth = j.depth := by
  induction j using induct with
  | null | bool | num | str => rfl
  | arr items ih => rw [mapNumbers, mapNumbersItems_eq_map, depth, depth, depthItems_map ih]
  | obj fields ih => rw [mapNumbers, mapNumbersFields_eq_map, depth, depth, depthFields_map ih]

/-- No number changes exactly if the value does not. -/
lemma mapNumbers_eq_self_iff {g : Number → Number} {j : Json} :
    j.mapNumbers g = j ↔ AllNumbers (fun n => g n = n) j := by
  induction j using induct with
  | null => exact iff_of_true rfl .null
  | bool b => exact iff_of_true rfl (.bool b)
  | str s => exact iff_of_true rfl (.str s)
  | num n => rw [mapNumbers, Json.num.injEq, allNumbers_num_iff]
  | arr items ih =>
    rw [mapNumbers, Json.arr.injEq, mapNumbersItems_eq_map, map_eq_self_iff, allNumbers_arr_iff]
    exact forall₂_congr ih
  | obj fields ih =>
    rw [mapNumbers, Json.obj.injEq, mapNumbersFields_eq_map, map_eq_self_iff, allNumbers_obj_iff]
    refine forall₂_congr fun p hp => ?_
    rw [← ih p hp]
    exact ⟨fun h => congrArg Prod.snd h, fun h => by rw [h]⟩

lemma mapNumbers_id (j : Json) : j.mapNumbers id = j :=
  mapNumbers_eq_self_iff.2 (allNumbers_of_forall (fun _ => rfl) j)

lemma of_mem_distinctFields {acc fields : List (String × Json)} {p : String × Json}
    (h : p ∈ distinctFields acc fields) : p ∈ acc ∨ ∃ q ∈ fields, p.2 = q.2.distinct := by
  induction fields generalizing acc with
  | nil => exact Or.inl h
  | cons q fields ih =>
    rcases ih h with hp | ⟨r, hr, hp⟩
    · exact (of_mem_insert hp).imp_right fun hp => ⟨q, List.mem_cons_self, by rw [hp]⟩
    · exact Or.inr ⟨r, List.mem_cons_of_mem _ hr, hp⟩

lemma depth_distinct_le (j : Json) : j.distinct.depth ≤ j.depth := by
  induction j using induct with
  | null | bool | num | str => exact Nat.le_refl _
  | arr items ih =>
    rw [distinct, distinctItems_eq_map, depth, depth]
    refine Nat.succ_le_succ (depthItems_le_iff.2 fun x hx => ?_)
    obtain ⟨y, hy, rfl⟩ := List.mem_map.1 hx
    exact Nat.le_trans (ih y hy) (depthItems_le_iff.1 (Nat.le_refl _) y hy)
  | obj fields ih =>
    rw [distinct, depth, depth]
    refine Nat.succ_le_succ (depthFields_le_iff.2 fun p hp => ?_)
    obtain hp | ⟨q, hq, hp⟩ := of_mem_distinctFields hp
    · cases hp
    · rw [hp]
      exact Nat.le_trans (ih q hq) (depthFields_le_iff.1 (Nat.le_refl _) q hq)

/-! ## Completing a draft -/

namespace Draft

lemma closed_ok_iff {stop : Option Stop} : closed stop = .ok () ↔ stop = none := by
  cases stop <;> simp [closed]

lemma complete_arr_ok_iff {items : List Draft} {stop : Option Stop} {limit : ℕ} {j : Json} :
    (Draft.arr items stop).complete limit = .ok j ↔
      1 < limit ∧ stop = none ∧
        ∃ xs, completeItems (limit - 1) items = .ok xs ∧ j = .arr xs := by
  rw [complete]
  by_cases hlimit : limit ≤ 1
  · simp [hlimit, Nat.not_lt.2 hlimit]
  · simp only [hlimit, if_false, bind_ok_iff, exists_unit_iff, closed_ok_iff, pure_ok_iff,
      Nat.lt_of_not_le hlimit, true_and]
    constructor
    · rintro ⟨xs, hxs, hstop, rfl⟩
      exact ⟨hstop, xs, hxs, rfl⟩
    · rintro ⟨hstop, xs, hxs, rfl⟩
      exact ⟨xs, hxs, hstop, rfl⟩

lemma complete_obj_ok_iff {fields : List (Except Fault String × Draft)} {stop : Option Stop}
    {limit : ℕ} {j : Json} :
    (Draft.obj fields stop).complete limit = .ok j ↔
      1 < limit ∧ stop = none ∧
        ∃ xs, completeFields (limit - 1) [] fields = .ok xs ∧ j = .obj xs := by
  rw [complete]
  by_cases hlimit : limit ≤ 1
  · simp [hlimit, Nat.not_lt.2 hlimit]
  · simp only [hlimit, if_false, bind_ok_iff, exists_unit_iff, closed_ok_iff, pure_ok_iff,
      Nat.lt_of_not_le hlimit, true_and]
    constructor
    · rintro ⟨xs, hxs, hstop, rfl⟩
      exact ⟨hstop, xs, hxs, rfl⟩
    · rintro ⟨hstop, xs, hxs, rfl⟩
      exact ⟨xs, hxs, hstop, rfl⟩

lemma completeItems_ok_iff {limit : ℕ} {items : List Draft} {xs : List Json} :
    completeItems limit items = .ok xs ↔
      List.Forall₂ (fun d x => d.complete limit = .ok x) items xs := by
  induction items generalizing xs with
  | nil =>
    rw [completeItems, Except.ok.injEq, List.forall₂_nil_left_iff]
    exact eq_comm
  | cons d ds ih =>
    rw [completeItems]
    simp only [bind_ok_iff, pure_ok_iff]
    constructor
    · rintro ⟨x, hx, xs', hxs, rfl⟩
      exact .cons hx (ih.1 hxs)
    · intro h
      cases h with
      | cons hx hxs => exact ⟨_, hx, _, ih.2 hxs, rfl⟩

lemma completeFields_cons_ok_iff {limit : ℕ} {acc out : List (String × Json)}
    {key : Except Fault String} {d : Draft} {ds : List (Except Fault String × Draft)} :
    completeFields limit acc ((key, d) :: ds) = .ok out ↔
      ∃ k, key = .ok k ∧ ∃ x, d.complete limit = .ok x ∧
        completeFields limit (Json.insert acc k x) ds = .ok out := by
  rw [completeFields]
  simp only [bind_ok_iff]

/-- Fields that are each read under a condition are read under all conditions, into what was there
before. -/
lemma completeFields_map_iff {limit : ℕ} {C : Json → Prop} {draft : Json → Draft}
    {result : Json → Json} {fields acc out : List (String × Json)}
    (h : ∀ p ∈ fields, ∀ y,
      (draft p.2).complete limit = .ok y ↔ C p.2 ∧ y = (result p.2).distinct) :
    completeFields limit acc (fields.map fun p => (.ok p.1, draft p.2)) = .ok out ↔
      (∀ p ∈ fields, C p.2) ∧
        out = distinctFields acc (fields.map fun p => (p.1, result p.2)) := by
  induction fields generalizing acc with
  | nil =>
    rw [List.map_nil, completeFields, Except.ok.injEq, List.map_nil, distinctFields]
    simp [eq_comm]
  | cons p fields ih =>
    rw [List.forall_mem_cons] at h
    rw [List.map_cons, completeFields_cons_ok_iff, List.forall_mem_cons, List.map_cons,
      distinctFields]
    constructor
    · rintro ⟨k, hk, x, hx, hrest⟩
      obtain rfl := Except.ok.inj hk
      obtain ⟨hp, rfl⟩ := (h.1 x).1 hx
      obtain ⟨hfields, hout⟩ := (ih h.2).1 hrest
      exact ⟨⟨hp, hfields⟩, hout⟩
    · rintro ⟨⟨hp, hfields⟩, hout⟩
      exact ⟨p.1, rfl, _, (h.1 _).2 ⟨hp, rfl⟩, (ih h.2).2 ⟨hfields, hout⟩⟩

/-- A whole value whose numbers are read in some way is completed exactly if it does not nest too
deep and its numbers are read.  It becomes the value with its numbers replaced and its keys made
distinct. -/
theorem complete_draftWith_iff {read : Number → Except Fault Number} {g : Number → Number}
    (hg : ∀ n m, read n = .ok m → g n = m) {j y : Json} {limit : ℕ} (hlimit : 0 < limit) :
    (draftWith read j).complete limit = .ok y ↔
      j.depth < limit ∧ AllNumbers (fun n => ∃ m, read n = .ok m) j ∧
        y = (j.mapNumbers g).distinct := by
  induction j using Json.induct generalizing limit y with
  | null =>
    simp [draftWith, complete, depth, hlimit, AllNumbers.null, mapNumbers, distinct, eq_comm]
  | bool b =>
    simp [draftWith, complete, depth, hlimit, AllNumbers.bool, mapNumbers, distinct, eq_comm]
  | str s =>
    simp [draftWith, complete, depth, hlimit, AllNumbers.str, mapNumbers, distinct, eq_comm,
      Except.map]
  | num n =>
    rw [draftWith, complete, mapNumbers, distinct, depth, allNumbers_num_iff]
    · cases hread : read n with
      | error e => simp [Except.map]
      | ok m => simp [Except.map, hlimit, hg n m hread, eq_comm]
    all_goals simp
  | arr items ih =>
    have hitem (hl : 1 < limit) : ∀ x ∈ items, ∀ y,
        (draftWith read x).complete (limit - 1) = .ok y ↔
          (x.depth < limit - 1 ∧ AllNumbers (fun n => ∃ m, read n = .ok m) x) ∧
            y = (x.mapNumbers g).distinct := fun x hx y => by
      rw [ih x hx (by omega), and_assoc]
    rw [draftWith, draftItems_eq_map, complete_arr_ok_iff, depth_arr_lt_iff, allNumbers_arr_iff,
      mapNumbers, mapNumbersItems_eq_map, distinct, distinctItems_eq_map, List.map_map]
    constructor
    · rintro ⟨hl, -, xs, hxs, rfl⟩
      rw [completeItems_ok_iff, forall₂_map_iff (hitem hl)] at hxs
      obtain ⟨hall, rfl⟩ := hxs
      exact ⟨⟨hl, fun x hx => (hall x hx).1⟩, fun x hx => (hall x hx).2, rfl⟩
    · rintro ⟨⟨hl, hdepth⟩, hnumbers, rfl⟩
      refine ⟨hl, rfl, _, ?_, rfl⟩
      rw [completeItems_ok_iff, forall₂_map_iff (hitem hl)]
      exact ⟨fun x hx => ⟨hdepth x hx, hnumbers x hx⟩, rfl⟩
  | obj fields ih =>
    have hfield (hl : 1 < limit) : ∀ p ∈ fields, ∀ y,
        (draftWith read p.2).complete (limit - 1) = .ok y ↔
          (p.2.depth < limit - 1 ∧ AllNumbers (fun n => ∃ m, read n = .ok m) p.2) ∧
            y = (p.2.mapNumbers g).distinct := fun p hp y => by
      rw [ih p hp (by omega), and_assoc]
    rw [draftWith, draftFields_eq_map, complete_obj_ok_iff, depth_obj_lt_iff, allNumbers_obj_iff,
      mapNumbers, mapNumbersFields_eq_map, distinct]
    constructor
    · rintro ⟨hl, -, xs, hxs, rfl⟩
      obtain ⟨hall, rfl⟩ := (completeFields_map_iff
        (C := fun x => x.depth < limit - 1 ∧ AllNumbers (fun n => ∃ m, read n = .ok m) x)
        (hfield hl)).1 hxs
      exact ⟨⟨hl, fun p hp => (hall p hp).1⟩, fun p hp => (hall p hp).2, rfl⟩
    · rintro ⟨⟨hl, hdepth⟩, hnumbers, rfl⟩
      refine ⟨hl, rfl, _, (completeFields_map_iff
        (C := fun x => x.depth < limit - 1 ∧ AllNumbers (fun n => ∃ m, read n = .ok m) x)
        (hfield hl)).2 ⟨fun p hp => ?_, rfl⟩, rfl⟩
      exact ⟨hdepth p hp, hnumbers p hp⟩

/-- A value that was whole before is completed if it does not nest too deep, and has its keys made
distinct. -/
theorem complete_ofJson_iff {j y : Json} {limit : ℕ} (hlimit : 0 < limit) :
    (Draft.ofJson j).complete limit = .ok y ↔ j.depth < limit ∧ y = j.distinct := by
  have h := @complete_draftWith_iff .ok id (fun n m h => Except.ok.inj h) j y limit hlimit
  rw [← draftWith_ok, h, mapNumbers_id]
  simp [allNumbers_of_forall]

/-! ## Completed values -/

/-- Induction over drafts. -/
theorem induct {P : Draft → Prop} (null : P .null) (bool : ∀ b, P (.bool b)) (num : ∀ n, P (.num n))
    (str : ∀ s, P (.str s)) (arr : ∀ items stop, (∀ d ∈ items, P d) → P (.arr items stop))
    (obj : ∀ fields stop, (∀ p ∈ fields, P p.2) → P (.obj fields stop))
    (broken : ∀ bare stop, P (.broken bare stop)) (misplaced : ∀ d, P d → P (.misplaced d))
    (d : Draft) : P d := by
  match d with
  | .null => exact null
  | .bool b => exact bool b
  | .num n => exact num n
  | .str s => exact str s
  | .arr items stop =>
    exact arr items stop fun d hd => induct null bool num str arr obj broken misplaced d
  | .obj fields stop =>
    exact obj fields stop fun p hp => induct null bool num str arr obj broken misplaced p.2
  | .broken bare stop => exact broken bare stop
  | .misplaced d => exact misplaced d (induct null bool num str arr obj broken misplaced d)
termination_by sizeOf d
decreasing_by
  · have := List.sizeOf_lt_of_mem hd
    simp only [Draft.arr.sizeOf_spec]
    omega
  · have hlt := List.sizeOf_lt_of_mem hp
    have hsnd : sizeOf p.2 < sizeOf p := by
      cases p
      simp only [Prod.mk.sizeOf_spec]
      omega
    simp only [Draft.obj.sizeOf_spec]
    omega
  · simp

/-- Fields that are completed have distinct keys, and their values have theirs once. -/
lemma completeFields_distinct {limit : ℕ} {fields : List (Except Fault String × Draft)}
    (h : ∀ p ∈ fields, ∀ y, p.2.complete limit = .ok y → y.distinct = y)
    {acc out : List (String × Json)} (hout : completeFields limit acc fields = .ok out)
    (hnodup : (acc.map Prod.fst).Nodup) (hacc : ∀ p ∈ acc, p.2.distinct = p.2) :
    (out.map Prod.fst).Nodup ∧ ∀ p ∈ out, p.2.distinct = p.2 := by
  induction fields generalizing acc with
  | nil =>
    obtain rfl := Except.ok.inj hout
    exact ⟨hnodup, hacc⟩
  | cons p fields ih =>
    rw [List.forall_mem_cons] at h
    obtain ⟨k, -, x, hx, hrest⟩ := completeFields_cons_ok_iff.1 hout
    refine ih h.2 hrest (nodup_insert hnodup k x) fun q hq => ?_
    rcases of_mem_insert hq with hq | rfl
    · exact hacc q hq
    · exact h.1 x hx

/-- A completed value has each key of an object once. -/
theorem complete_distinct {d : Draft} {limit : ℕ} {j : Json} (h : d.complete limit = .ok j) :
    j.distinct = j := by
  induction d using Draft.induct generalizing limit j with
  | null | bool b =>
    obtain rfl := Except.ok.inj h
    rfl
  | num n =>
    cases n with
    | error e => cases h
    | ok m => obtain rfl := Except.ok.inj h; rfl
  | str s =>
    cases s with
    | error e => cases h
    | ok m => obtain rfl := Except.ok.inj h; rfl
  | arr items stop ih =>
    obtain ⟨-, -, xs, hxs, rfl⟩ := complete_arr_ok_iff.1 h
    rw [completeItems_ok_iff] at hxs
    refine distinct_arr_iff.2 fun x hx => ?_
    obtain ⟨d, hd, hdx⟩ := exists_of_mem_forall₂ hxs hx
    exact ih d hd hdx
  | obj fields stop ih =>
    obtain ⟨-, -, xs, hxs, rfl⟩ := complete_obj_ok_iff.1 h
    exact distinct_obj_iff.2
      (completeFields_distinct (fun p hp y hy => ih p hp hy) hxs (by simp) (by simp))
  | broken bare stop => cases h
  | misplaced d ih => cases h

end Draft

/-- Making keys distinct twice is making them distinct. -/
lemma distinct_distinct (j : Json) : j.distinct.distinct = j.distinct :=
  Draft.complete_distinct
    ((Draft.complete_ofJson_iff j.depth.succ_pos).2 ⟨Nat.lt_succ_self _, rfl⟩)

end WireContract.Json
