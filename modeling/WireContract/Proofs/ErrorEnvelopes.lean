import WireContract.Proofs.RecordRoundTrip
import WireContract.Wire.Envelope

/-!
# Errors in their envelopes

An envelope is read strictly: its category, name and identifier have to be there and to be what they
are called.  `Envelope.readValue_iff` says so without the run over the keys, and says that the
parameters may be anything.  A declared error is read from whatever an envelope is read from; only
its parameters depend on what the envelope has for them, and parameters that do not fit are dropped.

What is written for an error is an envelope again.  Dropped parameters are written as an empty
object, and this too is read as no parameters, since each of the errors here has a parameter that
has to be there.
-/

namespace WireContract.Wire

open Json Schema Outcome

/-! ## Categories -/

lemma ErrorCode.ofName?_eq_some_iff {s : String} {c : ErrorCode} :
    ErrorCode.ofName? s = some c ↔ s = c.name := by
  constructor
  · intro h
    have hname := List.find?_some h
    exact (beq_iff_eq.1 hname).symm
  · rintro rfl
    cases c <;> rfl

lemma categoryNamed_ok_iff {s : String} {c : ErrorCode} :
    categoryNamed s = .ok c ↔ s = c.name := by
  rw [← ErrorCode.ofName?_eq_some_iff, categoryNamed]
  cases ErrorCode.ofName? s <;> simp

/-- A category is written as its name, or as an object with null under its name. -/
lemma readCode_ofJson_iff (limit : ℕ) {j : Json} {c : ErrorCode} :
    readCode ⟨.value, limit⟩ (Draft.ofJson j) = .ok c ↔
      j = .str c.name ∨ j = .obj [(c.name, .null)] := by
  cases j with
  | str s =>
    simp only [Draft.ofJson, readCode, Json.str.injEq, reduceCtorEq, or_false]
    exact categoryNamed_ok_iff
  | obj fields =>
    rcases fields with _ | ⟨⟨name, j⟩, _ | ⟨q, rest⟩⟩
    · simp [Draft.ofJson, Draft.ofFields, readCode]
    · -- One field: its name is the category, and its value has to be null.
      have hunit : readUnit (Draft.ofJson j) = .ok () ↔ j = .null := by
        cases j <;> simp [Draft.ofJson, readUnit, unexpected_ne_ok]
      simp only [Draft.ofJson, Draft.ofFields, readCode, bind_ok_iff, Except.ok.injEq,
        exists_eq_left', categoryNamed_ok_iff, exists_unit_iff, hunit, pure_ok_iff, reduceCtorEq,
        false_or, Json.obj.injEq, List.cons.injEq, Prod.mk.injEq, and_true]
      constructor
      · rintro ⟨c', rfl, rfl, rfl⟩
        exact ⟨rfl, rfl⟩
      · rintro ⟨rfl, rfl⟩
        exact ⟨c, rfl, rfl, rfl⟩
    · simp [Draft.ofJson, Draft.ofFields, readCode]
  | _ => simp [Draft.ofJson, readCode, unexpected_ne_ok]

lemma readString_ofJson_iff {expected : String} {j : Json} {s : String} :
    readString expected (Draft.ofJson j) = .ok s ↔ j = .str s := by
  cases j <;> simp [Draft.ofJson, readString, unexpected_ne_ok]

lemma readUuid_ofJson_iff {j : Json} {u : Uuid} :
    readUuid (Draft.ofJson j) = .ok u ↔ ∃ s, j = .str s ∧ Uuid.parse? s = some u := by
  simp only [readUuid, readGrammar, bind_ok_iff, readString_ofJson_iff]
  refine exists_congr fun s => and_congr_right fun _ => ?_
  cases Uuid.parse? s <;> simp

/-! ## Envelopes -/

namespace Envelope

/-- The fields that a value gives to an envelope: those of an object, or the items of an array under
the keys in their order. -/
def fields? : Json → Option (List (String × Json))
  | .obj fields => some fields
  | .arr items =>
    if items.length ≤ rules.length then some ((rules.map (·.name)).zip items) else none
  | _ => none

/-- The fields say what the envelope holds.  Under the key of the parameters there may be anything,
or nothing. -/
structure Carries (fields : List (String × Json)) (e : Envelope) : Prop where
  code : ∃ j, fields.lookup "errorCode" = some j ∧
    (j = .str e.code.name ∨ j = .obj [(e.code.name, .null)])
  name : fields.lookup "errorName" = some (.str e.name)
  id : ∃ s, fields.lookup "errorInstanceId" = some (.str s) ∧ Uuid.parse? s = some e.id
  parameters : e.parameters = ((fields.lookup "parameters").getD .null).distinct

lemma carries_iff {fields : List (String × Json)} {e : Envelope} : Carries fields e ↔
    (∃ j, fields.lookup "errorCode" = some j ∧
      (j = .str e.code.name ∨ j = .obj [(e.code.name, .null)])) ∧
    fields.lookup "errorName" = some (.str e.name) ∧
    (∃ s, fields.lookup "errorInstanceId" = some (.str s) ∧ Uuid.parse? s = some e.id) ∧
    e.parameters = ((fields.lookup "parameters").getD .null).distinct :=
  ⟨fun h => ⟨h.code, h.name, h.id, h.parameters⟩, fun ⟨hc, hn, hi, hp⟩ => ⟨hc, hn, hi, hp⟩⟩

/-- What a key was read as: nothing if it is not there. -/
def Slot {α : Type} (reads : Json → α → Prop) : Option Json → Option α → Prop
  | none, a => a = none
  | some j, a => ∃ x, reads j x ∧ a = some x

/-- What was gathered from the fields of an object. -/
structure Gathers (r : Reader) (fields : List (String × Json)) (g : Gathered) : Prop where
  code : Slot (fun j c => readCode r (Draft.ofJson j) = .ok c) (fields.lookup "errorCode") g.code
  name : Slot (fun j s => readString "a string" (Draft.ofJson j) = .ok s)
    (fields.lookup "errorName") g.name
  id : Slot (fun j u => readUuid (Draft.ofJson j) = .ok u) (fields.lookup "errorInstanceId") g.id
  parameters : Slot (fun j p => (Draft.ofJson j).complete r.limit = .ok p)
    (fields.lookup "parameters") g.parameters

section Fields

variable {r : Reader} {fields : List (String × Json)}

/-- Each rule sets one part of the envelope to what it reads. -/
lemma rule_read_cases {rule : RecordField Gathered} (hrule : rule ∈ rules) {d : Draft}
    {g g' : Gathered} (h : rule.read r d g = .ok g') :
    (rule.name = "errorCode" ∧ ∃ c, readCode r d = .ok c ∧ g' = { g with code := some c }) ∨
    (rule.name = "errorName" ∧
      ∃ s, readString "a string" d = .ok s ∧ g' = { g with name := some s }) ∨
    (rule.name = "errorInstanceId" ∧ ∃ u, readUuid d = .ok u ∧ g' = { g with id := some u }) ∨
    (rule.name = "parameters" ∧
      ∃ p, d.complete r.limit = .ok p ∧ g' = { g with parameters := some p }) := by
  simp only [rules, List.mem_cons, List.not_mem_nil, or_false] at hrule
  obtain rfl | rfl | rfl | rfl := hrule <;>
  · obtain ⟨a, ha, h⟩ := bind_ok_iff.1 h
    have hg := (pure_ok_iff.1 h).symm
    simp [ha, hg]

lemma nodup_rules : (rules.map (·.name)).Nodup := by decide

/-- A part of the envelope that only the rule of one key sets is what that key was read as. -/
lemma slot_of_readFields {α : Type} (view : Gathered → Option α) (reads : Draft → α → Prop)
    {key : String} (hkey : key ∈ rules.map (·.name)) (hempty : view ⟨none, none, none, none⟩ = none)
    (hstep : ∀ rule ∈ rules, ∀ d g g', rule.read r d g = .ok g' →
      (rule.name = key ∧ ∃ a, reads d a ∧ view g' = some a) ∨
        (rule.name ≠ key ∧ view g' = view g))
    (hkeys : (fields.map Prod.fst).Nodup) {g : Gathered} {seen : List String}
    (h : readFields r rules ⟨none, none, none, none⟩ [] (Draft.ofFields fields) = .ok (g, seen)) :
    Slot (fun j => reads (Draft.ofJson j)) (fields.lookup key) (view g) := by
  obtain ⟨rule, hrule, rfl⟩ := List.mem_map.1 hkey
  have hframe : ∀ rule' ∈ rules, rule'.name ≠ rule.name → ∀ d g g',
      rule'.read r d g = .ok g' → view g' = view g := by
    intro rule' hrule' hne d g g' hread
    obtain ⟨hname, -⟩ | ⟨-, hview⟩ := hstep rule' hrule' d g g' hread
    · exact absurd hname hne
    · exact hview
  obtain ⟨hmissing, hthere⟩ := view_of_readFields view nodup_rules hrule hframe hkeys h
  cases hj : fields.lookup rule.name with
  | none => exact (hmissing hj).1.trans hempty
  | some j =>
    obtain ⟨-, before, after, hread, hview⟩ := hthere j hj
    obtain ⟨-, a, ha, hafter⟩ | ⟨hne, -⟩ := hstep rule hrule _ _ _ hread
    · exact ⟨a, ha, hview.trans hafter⟩
    · exact absurd rfl hne

lemma gathers_of_readFields (hkeys : (fields.map Prod.fst).Nodup) {g : Gathered}
    {seen : List String}
    (h : readFields r rules ⟨none, none, none, none⟩ [] (Draft.ofFields fields) = .ok (g, seen)) :
    Gathers r fields g where
  code := by
    refine slot_of_readFields Gathered.code (fun d c => readCode r d = .ok c)
      (by decide) rfl (fun rule hrule d g g' hread => ?_) hkeys h
    obtain ⟨hname, a, ha, rfl⟩ | ⟨hname, a, ha, rfl⟩ | ⟨hname, a, ha, rfl⟩ | ⟨hname, a, ha, rfl⟩ :=
      rule_read_cases hrule hread <;> simp [hname, ha]
  name := by
    refine slot_of_readFields Gathered.name (fun d s => readString "a string" d = .ok s)
      (by decide) rfl (fun rule hrule d g g' hread => ?_) hkeys h
    obtain ⟨hname, a, ha, rfl⟩ | ⟨hname, a, ha, rfl⟩ | ⟨hname, a, ha, rfl⟩ | ⟨hname, a, ha, rfl⟩ :=
      rule_read_cases hrule hread <;> simp [hname, ha]
  id := by
    refine slot_of_readFields Gathered.id (fun d u => readUuid d = .ok u)
      (by decide) rfl (fun rule hrule d g g' hread => ?_) hkeys h
    obtain ⟨hname, a, ha, rfl⟩ | ⟨hname, a, ha, rfl⟩ | ⟨hname, a, ha, rfl⟩ | ⟨hname, a, ha, rfl⟩ :=
      rule_read_cases hrule hread <;> simp [hname, ha]
  parameters := by
    refine slot_of_readFields Gathered.parameters (fun d p => d.complete r.limit = .ok p)
      (by decide) rfl (fun rule hrule d g g' hread => ?_) hkeys h
    obtain ⟨hname, a, ha, rfl⟩ | ⟨hname, a, ha, rfl⟩ | ⟨hname, a, ha, rfl⟩ | ⟨hname, a, ha, rfl⟩ :=
      rule_read_cases hrule hread <;> simp [hname, ha]

lemma ofGathered_ok_iff {g : Gathered} {e : Envelope} :
    ofGathered g = .ok e ↔ g.code = some e.code ∧ g.name = some e.name ∧ g.id = some e.id ∧
      g.parameters.getD .null = e.parameters := by
  obtain ⟨code, name, id, parameters⟩ := g
  obtain ⟨code', name', id', parameters'⟩ := e
  cases code <;> cases name <;> cases id <;> simp [ofGathered]

/-- An envelope is put together from what was gathered exactly if the fields carry it. -/
lemma Gathers.ok_iff {limit : ℕ} {g : Gathered} (h : Gathers ⟨.value, limit⟩ fields g)
    (hlimit : 0 < limit) {e : Envelope} : ofGathered g = .ok e ↔ Carries fields e := by
  have hcode : g.code = some e.code ↔ ∃ j, fields.lookup "errorCode" = some j ∧
      (j = .str e.code.name ∨ j = .obj [(e.code.name, .null)]) := by
    have hslot := h.code
    cases hj : fields.lookup "errorCode" with
    | none => simp [show g.code = none by simpa [hj, Slot] using hslot]
    | some j =>
      rw [hj] at hslot
      obtain ⟨c, hc, hg⟩ := hslot
      simp only [hg, Option.some.injEq, exists_eq_left', ← readCode_ofJson_iff limit, hc,
        Except.ok.injEq]
  have hname : g.name = some e.name ↔ fields.lookup "errorName" = some (.str e.name) := by
    have hslot := h.name
    cases hj : fields.lookup "errorName" with
    | none => simp [show g.name = none by simpa [hj, Slot] using hslot]
    | some j =>
      rw [hj] at hslot
      obtain ⟨s, hs, hg⟩ := hslot
      simp only [hg, Option.some.injEq, readString_ofJson_iff.1 hs, Json.str.injEq]
  have hid : g.id = some e.id ↔
      ∃ s, fields.lookup "errorInstanceId" = some (.str s) ∧ Uuid.parse? s = some e.id := by
    have hslot := h.id
    cases hj : fields.lookup "errorInstanceId" with
    | none => simp [show g.id = none by simpa [hj, Slot] using hslot]
    | some j =>
      rw [hj] at hslot
      obtain ⟨u, hu, hg⟩ := hslot
      obtain ⟨s, rfl, hs⟩ := readUuid_ofJson_iff.1 hu
      simp [hg, hs]
  have hparameters : g.parameters.getD .null =
      ((fields.lookup "parameters").getD .null).distinct := by
    have hslot := h.parameters
    cases hj : fields.lookup "parameters" with
    | none =>
      rw [show g.parameters = none by simpa [hj, Slot] using hslot]
      rfl
    | some j =>
      rw [hj] at hslot
      obtain ⟨p, hp, hg⟩ := hslot
      rw [hg]
      exact ((Draft.complete_ofJson_iff hlimit).1 hp).2
  rw [ofGathered_ok_iff, hcode, hname, hid, hparameters]
  exact ⟨fun ⟨hcode, hname, hid, hparameters⟩ => ⟨hcode, hname, hid, hparameters.symm⟩,
    fun h => ⟨h.code, h.name, h.id, h.parameters.symm⟩⟩

/-- Fields that carry an envelope are read. -/
lemma Carries.exists_readFields {limit : ℕ} {e : Envelope} (h : Carries fields e)
    (hkeys : (fields.map Prod.fst).Nodup) (hlimit : 0 < limit)
    (hdepth : ∀ key j, fields.lookup key = some j → j.depth < limit) :
    ∃ g seen, readFields ⟨.value, limit⟩ rules ⟨none, none, none, none⟩ []
      (Draft.ofFields fields) = .ok (g, seen) ∧
        ∀ rule ∈ rules, rule.presence = .required → rule.name ∈ seen := by
  obtain ⟨jc, hcode, hjc⟩ := h.code
  obtain ⟨s, hid, hs⟩ := h.id
  have hread : ∀ rule ∈ rules, ∀ j, fields.lookup rule.name = some j → ∀ g,
      ∃ g', rule.read ⟨.value, limit⟩ (Draft.ofJson j) g = .ok g' := by
    intro rule hrule j hj g
    simp only [rules, List.mem_cons, List.not_mem_nil, or_false] at hrule
    obtain rfl | rfl | rfl | rfl := hrule
    · obtain rfl := Option.some.inj (hcode.symm.trans hj)
      exact ⟨_, bind_ok_iff.2 ⟨_, (readCode_ofJson_iff _).2 hjc, rfl⟩⟩
    · obtain rfl := Option.some.inj (h.name.symm.trans hj)
      exact ⟨_, bind_ok_iff.2 ⟨_, readString_ofJson_iff.2 rfl, rfl⟩⟩
    · obtain rfl := Option.some.inj (hid.symm.trans hj)
      exact ⟨_, bind_ok_iff.2 ⟨_, readUuid_ofJson_iff.2 ⟨s, rfl, hs⟩, rfl⟩⟩
    · exact ⟨_, bind_ok_iff.2
        ⟨_, (Draft.complete_ofJson_iff hlimit).2 ⟨hdepth _ j hj, rfl⟩, rfl⟩⟩
  obtain ⟨⟨g, seen⟩, hfields⟩ :=
    Json.exists_readFields hkeys hread ⟨none, none, none, none⟩ [] (by simp)
  refine ⟨g, seen, hfields, fun rule hrule hpresence => ?_⟩
  have hseen := (view_of_readFields (fun _ => ()) nodup_rules hrule
    (fun _ _ _ _ _ _ _ => rfl) hkeys hfields).2
  simp only [rules, List.mem_cons, List.not_mem_nil, or_false] at hrule
  obtain rfl | rfl | rfl | rfl := hrule
  · exact (hseen _ hcode).1
  · exact (hseen _ h.name).1
  · exact (hseen _ hid).1
  · cases hpresence

end Fields

/-- An object is read as an envelope exactly if its fields carry it. -/
lemma readValue_obj_iff {fields : List (String × Json)} (hkeys : (fields.map Prod.fst).Nodup)
    {e : Envelope} : readValue read (.obj fields) = .ok e ↔ Carries fields e := by
  have hlimit : 0 < (Json.obj fields).depth := Nat.succ_pos _
  have hdepth : ∀ key j, fields.lookup key = some j → j.depth < (Json.obj fields).depth :=
    fun key j => depth_lt_of_lookup
  simp only [readValue, read, bind_ok_iff, readRecord_obj_iff]
  constructor
  · rintro ⟨g, ⟨-, seen, hfields, -⟩, h⟩
    exact ((gathers_of_readFields hkeys hfields).ok_iff hlimit).1 h
  · intro h
    obtain ⟨g, seen, hfields, hrequired⟩ := h.exists_readFields hkeys hlimit hdepth
    refine ⟨g, ⟨Nat.lt_succ_of_le hlimit, seen, hfields, hrequired⟩, ?_⟩
    exact ((gathers_of_readFields hkeys hfields).ok_iff hlimit).2 h

/-- An array is read as an envelope exactly if its items, under the keys in order, carry it. -/
lemma readValue_arr_iff {items : List Json} {e : Envelope} :
    readValue read (.arr items) = .ok e ↔ items.length ≤ rules.length ∧
      Carries ((rules.map (·.name)).zip items) e := by
  have hlimit : ¬ (Json.arr items).depth + 1 ≤ 1 := by
    rw [depth]
    omega
  have hdepth : ∀ j ∈ items, j.depth < (Json.arr items).depth :=
    (depth_arr_lt_iff.1 (Nat.lt_succ_self _)).2
  have hwhole : ∀ j ∈ items, (Draft.ofJson j).complete (Json.arr items).depth = .ok j.distinct :=
    fun j hj => (Draft.complete_ofJson_iff (Nat.zero_lt_of_lt (hdepth j hj))).2 ⟨hdepth j hj, rfl⟩
  rw [carries_iff]
  simp only [readValue, read, Draft.ofJson, ofItems_eq_map, readRecord, Reader.enter, hlimit,
    if_false]
  -- Three elements are enough, a fourth holds the parameters, and a fifth is refused.
  rcases items with _ | ⟨a, _ | ⟨b, _ | ⟨c, _ | ⟨p, _ | ⟨q, rest⟩⟩⟩⟩⟩
  · simp [rules, readElements]
  · simp [rules, readElements, Draft.closed, List.lookup_cons]
  · simp [rules, readElements, Draft.closed, List.lookup_cons]
  · simp [rules, readElements, Draft.closed, noMoreElements, List.lookup_cons, readCode_ofJson_iff,
      readString_ofJson_iff, readUuid_ofJson_iff, ofGathered_ok_iff, distinct,
      eq_comm (a := Json.null)]
  · simp [rules, readElements, Draft.closed, noMoreElements, List.lookup_cons, readCode_ofJson_iff,
      readString_ofJson_iff, readUuid_ofJson_iff, ofGathered_ok_iff, hwhole p (by simp),
      eq_comm (a := p.distinct)]
  · simp [rules, readElements, Draft.closed, noMoreElements]

/-- A value is read as an envelope exactly if it has fields that carry it. -/
theorem readValue_iff {v : Json} (hkeys : ∀ fields, v = .obj fields → (fields.map Prod.fst).Nodup)
    {e : Envelope} :
    readValue read v = .ok e ↔ ∃ fields, fields? v = some fields ∧ Carries fields e := by
  cases v with
  | obj fields => simp [fields?, readValue_obj_iff (hkeys fields rfl)]
  | arr items =>
    rw [readValue_arr_iff]
    by_cases hlength : items.length ≤ rules.length <;> simp [fields?, hlength]
  | _ => simp [fields?, readValue, read, Draft.ofJson, readRecord, unexpected_ne_ok]

/-- An envelope whose parameters have each key once is read from what is written for it. -/
lemma readValue_toJson {e : Envelope} (h : e.parameters.distinct = e.parameters) :
    readValue read e.toJson = .ok e := by
  refine (readValue_obj_iff (by simp)).2 ⟨⟨_, rfl, Or.inl rfl⟩, rfl, ⟨_, rfl, ?_⟩, h.symm⟩
  exact Uuid.parse?_text e.id

end Envelope

/-! ## Declared errors -/

namespace Occurrence

variable {reg : Registry} {e : ErrorDecl}

lemma toOption_eq_iff {ε α : Type} {x : Except ε α} {found : Option α} :
    x.toOption = found ↔ ∀ a, found = some a ↔ x = .ok a := by
  cases x with
  | error fault => cases found <;> simp [Except.toOption]
  | ok a =>
    constructor
    · rintro rfl b
      simp [Except.toOption]
    · intro h
      exact ((h a).2 rfl).symm

/-- An error is read from a value exactly if an envelope is; it has the identifier of the envelope,
and the parameters that are read from those of the envelope, if any are. -/
lemma readValue_iff {v : Json} {o : Occurrence} :
    readValue (read reg e) v = .ok o ↔ ∃ env, readValue Envelope.read v = .ok env ∧
      o.id = env.id ∧ ∀ p, o.params = some p ↔
        readValue (readParams reg e) env.parameters = .ok p := by
  have hread : readValue (read reg e) v = ofEnvelope reg e <$> readValue Envelope.read v := rfl
  rw [hread, map_ok_iff]
  refine exists_congr fun env => and_congr_right fun _ => ?_
  obtain ⟨id, params⟩ := o
  rw [ofEnvelope, Occurrence.mk.injEq, toOption_eq_iff, eq_comm]

/-- Which error is read does not depend on the parameters, but for the parameters themselves. -/
lemma exists_readValue_of_parameters {v v' : Json} {fields fields' : List (String × Json)}
    (hv : Envelope.fields? v = some fields) (hv' : Envelope.fields? v' = some fields')
    (hkeys : (fields.map Prod.fst).Nodup) (hkeys' : (fields'.map Prod.fst).Nodup)
    (hother : ∀ key, key ≠ "parameters" → fields'.lookup key = fields.lookup key) {o : Occurrence}
    (h : readValue (read reg e) v = .ok o) :
    ∃ o', readValue (read reg e) v' = .ok o' ∧ o'.id = o.id ∧ ∀ p, o'.params = some p ↔
      readValue (readParams reg e) ((fields'.lookup "parameters").getD .null).distinct = .ok p := by
  have hobj : ∀ {w : Json} {ws : List (String × Json)}, Envelope.fields? w = some ws →
      (ws.map Prod.fst).Nodup → ∀ fs, w = .obj fs → (fs.map Prod.fst).Nodup := by
    rintro w ws hw hws fs rfl
    exact Option.some.inj hw ▸ hws
  obtain ⟨env, henv, hid, -⟩ := readValue_iff.1 h
  obtain ⟨fs, hfs, hcarries⟩ := (Envelope.readValue_iff (hobj hv hkeys)).1 henv
  obtain rfl := Option.some.inj (hv.symm.trans hfs)
  have hcarries' : Envelope.Carries fields'
      { env with parameters := ((fields'.lookup "parameters").getD .null).distinct } :=
    ⟨by rw [hother _ (by decide)]; exact hcarries.code,
      by rw [hother _ (by decide)]; exact hcarries.name,
      by rw [hother _ (by decide)]; exact hcarries.id, rfl⟩
  have henv' := (Envelope.readValue_iff (hobj hv' hkeys')).2 ⟨fields', hv', hcarries'⟩
  refine ⟨ofEnvelope reg e _, map_ok_iff.2 ⟨_, henv', rfl⟩, hid.symm, ?_⟩
  exact toOption_eq_iff.1 rfl

end Occurrence

section Parameters

variable {reg : Registry} {e : ErrorDecl} {bases : List Base}

/-- The JSON that carries the parameters of an occurrence: an empty object if there are none. -/
def Occurrence.payload (reg : Registry) (e : ErrorDecl) (o : Occurrence) : Json :=
  match o.params with
  | some p => (paramsJson reg e p).distinct
  | none => .obj []

/-- Parameters that were read are written as an object. -/
lemma exists_paramsJson (hplain : Plain reg bases) (hb : Base.object (paramsObject e) ∈ bases)
    {r : Reader} {d : Draft} {p : Value} (h : readParams reg e r d = .ok p) :
    ∃ fields, (paramsJson reg e p).distinct = .obj fields := by
  have hobject : (Base.object (paramsObject e)).IsPlain reg := hplain.isPlain _ hb
  have hfits := (fits_of_decodeForm hplain hb h).1
  cases hfits with
  | record hlength _ => exact ⟨_, distinct_encode_record hobject.1 hlength⟩

/-- An occurrence that was read is written with its parameters, or with an empty object. -/
lemma envelope_parameters (hplain : Plain reg bases) (hb : Base.object (paramsObject e) ∈ bases)
    {v : Json} {o : Occurrence} (h : readValue (Occurrence.read reg e) v = .ok o) :
    (o.envelope reg e).parameters = o.payload reg e ∧ ∃ fields, o.payload reg e = .obj fields := by
  obtain ⟨env, -, -, hparams⟩ := Occurrence.readValue_iff.1 h
  obtain ⟨id, params⟩ := o
  cases params with
  | none => exact ⟨rfl, [], rfl⟩
  | some p =>
    obtain ⟨fields, hfields⟩ := exists_paramsJson hplain hb ((hparams p).1 rfl)
    simp only [Occurrence.envelope, Occurrence.parameters, Occurrence.payload, Option.map_some,
      hfields]
    exact ⟨trivial, fields, rfl⟩

/-- An occurrence that was read is read again from what is written for it, if an empty object is not
read as parameters. -/
theorem readValue_envelope (hplain : Plain reg bases) (hunions : ∀ u, Base.union u ∉ bases)
    (hb : Base.object (paramsObject e) ∈ bases)
    (hempty : ∀ p, readValue (readParams reg e) (.obj []) ≠ .ok p) {v : Json} {o : Occurrence}
    (h : readValue (Occurrence.read reg e) v = .ok o) :
    readValue (Occurrence.read reg e) (o.envelope reg e).toJson = .ok o := by
  obtain ⟨hpayload, -⟩ := envelope_parameters hplain hb h
  obtain ⟨env, -, -, hparams⟩ := Occurrence.readValue_iff.1 h
  have hdistinct : (o.envelope reg e).parameters.distinct = (o.envelope reg e).parameters := by
    rw [hpayload, Occurrence.payload]
    cases o.params with
    | none => rfl
    | some p => exact distinct_distinct _
  refine Occurrence.readValue_iff.2 ⟨_, Envelope.readValue_toJson hdistinct, rfl, fun p => ?_⟩
  rw [hpayload, Occurrence.payload]
  cases hp : o.params with
  | none => simp [hempty]
  | some q =>
    have hread : readValue (readParams reg e) (paramsJson reg e q).distinct = .ok q :=
      decodeForm_encode_of_read hplain hunions hb ((hparams q).1 hp) (Nat.lt_succ_self _) .value
    rw [hread, Option.some.injEq, Except.ok.injEq]

end Parameters

end WireContract.Wire

/-! ## Two errors -/

namespace WireContract.Sample.Canvas

open Json Schema Wire Outcome

/-- The bases of what is inside the parameters of the errors. -/
def paramBases : List Base :=
  [.object (paramsObject nameError), .object (paramsObject shapeNotFound), .primitive .integer,
    .primitive .string]

lemma plain_paramBases : Plain registry paramBases where
  exists_form := by
    have h : ∀ b ∈ paramBases, ∀ t ∈ b.parts, ∃ f ∈ form? registry t, f.base ∈ paramBases := by
      decide +kernel
    exact h
  isPlain := by decide +kernel

lemma union_notMem_paramBases (u : Union) : Base.union u ∉ paramBases := by
  simp [paramBases]

lemma mem_paramBases {e : ErrorDecl} (he : e = nameError ∨ e = shapeNotFound) :
    Base.object (paramsObject e) ∈ paramBases := by
  obtain rfl | rfl := he <;> simp [paramBases]

/-- Each of the errors has a parameter that has to be there. -/
lemma readParams_empty {e : ErrorDecl} (he : e = nameError ∨ e = shapeNotFound) (p : Value) :
    readValue (readParams registry e) (.obj []) ≠ .ok p := by
  obtain rfl | rfl := he
  · have h : readValue (readParams registry nameError) (.obj []) =
        .error (.mismatch (.missingField "a")) := by
      cbv
    rw [h]
    rintro ⟨⟩
  · have h : readValue (readParams registry shapeNotFound) (.obj []) =
        .error (.mismatch (.missingField "shapeId")) := by
      cbv
    rw [h]
    rintro ⟨⟩

/-- A declared error is read from a value exactly if an envelope is.  It keeps the identifier of the
envelope, and its parameters are those that the payload of the envelope is read as, if it is.
Whether an error is read, and with which identifier, does not change with the payload.  An error
that was read is written as an envelope with its own category and name, its identifier and its
parameters, or an empty object if it has none; and the same error is read from that. -/
theorem error_reads_as_envelope {e : ErrorDecl} (he : e = nameError ∨ e = shapeNotFound)
    (v : Json) :
    (∀ o, readValue (Occurrence.read registry e) v = .ok o ↔
      ∃ env, readValue Envelope.read v = .ok env ∧ o.id = env.id ∧
        ∀ p, o.params = some p ↔ readValue (readParams registry e) env.parameters = .ok p) ∧
    ((∃ o, readValue (Occurrence.read registry e) v = .ok o) ↔
      ∃ env, readValue Envelope.read v = .ok env) ∧
    ∀ o, readValue (Occurrence.read registry e) v = .ok o →
      (∀ fields, Envelope.fields? v = some fields → (fields.map Prod.fst).Nodup →
        ∀ v' fields', Envelope.fields? v' = some fields' → (fields'.map Prod.fst).Nodup →
          (∀ key, key ≠ "parameters" → fields'.lookup key = fields.lookup key) →
            ∃ o', readValue (Occurrence.read registry e) v' = .ok o' ∧ o'.id = o.id ∧
              ∀ p, o'.params = some p ↔ readValue (readParams registry e)
                ((fields'.lookup "parameters").getD .null).distinct = .ok p) ∧
      (o.envelope registry e).toJson = .obj [
        ("errorCode", .str e.code.name),
        ("errorName", .str e.fullName),
        ("errorInstanceId", .str o.id.text),
        ("parameters", o.payload registry e)] ∧
      (∃ fields, o.payload registry e = .obj fields) ∧
      readValue (Occurrence.read registry e) (o.envelope registry e).toJson = .ok o := by
  have hb := mem_paramBases he
  refine ⟨fun o => Occurrence.readValue_iff, ?_, fun o ho => ⟨?_, ?_, ?_, ?_⟩⟩
  · constructor
    · rintro ⟨o, ho⟩
      obtain ⟨env, henv, -⟩ := Occurrence.readValue_iff.1 ho
      exact ⟨env, henv⟩
    · rintro ⟨env, henv⟩
      exact ⟨_, map_ok_iff.2 ⟨env, henv, rfl⟩⟩
  · intro fields hfields hkeys v' fields' hfields' hkeys' hother
    exact Occurrence.exists_readValue_of_parameters hfields hfields' hkeys hkeys' hother ho
  · rw [Envelope.toJson, (envelope_parameters plain_paramBases hb ho).1]
    rfl
  · exact (envelope_parameters plain_paramBases hb ho).2
  · exact readValue_envelope plain_paramBases union_notMem_paramBases hb (readParams_empty he) ho

/-- An error of another name, with a list for parameters. -/
def strayError : Json :=
  .obj [("errorInstanceId", .str "33333333-3333-3333-3333-333333333333"),
    ("errorCode", .obj [("CONFLICT", .null)]), ("errorName", .str "Tools:Lost"),
    ("parameters", .arr [.num (.int 7)])]

/-- What is read from it: its parameters are dropped. -/
def strayOccurrence : Occurrence :=
  ⟨(Uuid.parse? "33333333-3333-3333-3333-333333333333").get (by decide +kernel), none⟩

theorem error_reads_as_envelope_stray :
    readValue (Occurrence.read registry shapeNotFound) strayError = .ok strayOccurrence ∧
      (strayOccurrence.envelope registry shapeNotFound).toJson = .obj [
        ("errorCode", .str "NOT_FOUND"),
        ("errorName", .str "Shapes:ShapeNotFound"),
        ("errorInstanceId", .str "33333333-3333-3333-3333-333333333333"),
        ("parameters", .obj [])] ∧
      readValue (Occurrence.read registry shapeNotFound)
        (strayOccurrence.envelope registry shapeNotFound).toJson = .ok strayOccurrence := by
  have hid : Uuid.parse? "33333333-3333-3333-3333-333333333333" = some strayOccurrence.id := by
    simp [strayOccurrence]
  have hparams : ∀ p, readValue (readParams registry shapeNotFound) (.arr [.num (.int 7)]) ≠
      .ok p := by
    have h : readValue (readParams registry shapeNotFound) (.arr [.num (.int 7)]) =
        .error (.mismatch (.invalidType (.num (.int 7)) "a string")) := by
      cbv
    rw [h]
    rintro p ⟨⟩
  have henv : readValue Envelope.read strayError =
      .ok ⟨.conflict, "Tools:Lost", strayOccurrence.id, .arr [.num (.int 7)]⟩ :=
    (Envelope.readValue_obj_iff (by decide)).2
      ⟨⟨_, rfl, Or.inr rfl⟩, rfl, ⟨_, rfl, hid⟩, rfl⟩
  have hread : readValue (Occurrence.read registry shapeNotFound) strayError =
      .ok strayOccurrence :=
    Occurrence.readValue_iff.2 ⟨_, henv, rfl, fun p => iff_of_false (by rintro ⟨⟩) (hparams p)⟩
  obtain ⟨-, -, hall⟩ := error_reads_as_envelope (Or.inr rfl) strayError
  obtain ⟨-, hwritten, -, hback⟩ := hall strayOccurrence hread
  have htext : strayOccurrence.id.text = "33333333-3333-3333-3333-333333333333" := by
    decide +kernel
  rw [htext] at hwritten
  exact ⟨hread, hwritten, hback⟩

end WireContract.Sample.Canvas
