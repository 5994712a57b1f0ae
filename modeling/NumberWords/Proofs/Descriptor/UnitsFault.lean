import NumberWords.Proofs.Descriptor.Loading
import NumberWords.Proofs.Json.Faults

/-!
Which reading finds wrong units.

Loading tests the units of the value before it decodes the descriptor, so wrong units are a fault of
their own, whatever else is wrong.  The value has the last member of that name, though, and decoding
takes the first.  Where the text has several, the units that are tested need not be those that are
decoded, and then the fault of the first comes out as a fault of the text (`load_units_fault`).
-/

namespace NumberWords
namespace Descriptor

open Json (Value Reader SparesUnits Run PassesMember NextMember)
open Fallible

variable {draft : Draft} {ms before : List (String × Value)} {text : String} {e : UnitsFault}

/-! ## Fields -/

theorem sparesUnits_readLexicon (cs : List Char) : SparesUnits (readLexicon cs) := by
  refine Json.sparesUnits_readMap (fun l cs => ?_) _ cs
  refine .bind (Json.sparesUnits_naturalName cs) fun ⟨k, cs⟩ => ?_
  refine .bind (Json.sparesUnits_colon cs) fun ⟨⟨⟩, cs⟩ => ?_
  exact .bind (Json.sparesUnits_readString cs) fun _ => Json.sparesUnits_ok _

theorem sparesUnits_readAlternatives (cs : List Char) : SparesUnits (readAlternatives cs) := by
  refine Json.sparesUnits_readMap (fun m cs => ?_) _ cs
  refine .bind (Json.sparesUnits_string cs) fun ⟨name, cs⟩ => ?_
  refine .bind (Json.sparesUnits_colon cs) fun ⟨⟨⟩, cs⟩ => ?_
  exact .bind (sparesUnits_readLexicon cs) fun _ => Json.sparesUnits_ok _

theorem sparesUnits_setWith {α : Type} {read : Reader α} (set : Descriptor → α → Descriptor)
    (d : Descriptor) (h : ∀ cs, SparesUnits (read cs)) (cs : List Char) :
    SparesUnits (setWith read set d cs) :=
  .bind (h cs) fun _ => Json.sparesUnits_ok _

/-- The units are the only field that fails for units. -/
theorem sparesUnits_field {name : String} {read : Descriptor → Reader Descriptor}
    (h : fields.lookup name = some read) (hname : name ≠ "units") (d : Descriptor)
    (cs : List Char) : SparesUnits (read d cs) := by
  have hmem := Json.mem_of_lookup h
  simp only [fields, List.mem_cons, Prod.mk.injEq, List.not_mem_nil, or_false] at hmem
  rcases hmem with ⟨-, rfl⟩ | ⟨-, rfl⟩ | ⟨-, rfl⟩ | ⟨-, rfl⟩ | ⟨-, rfl⟩ | ⟨-, rfl⟩ | ⟨-, rfl⟩ |
    ⟨hunits, -⟩ | ⟨-, rfl⟩ | ⟨-, rfl⟩
  · exact sparesUnits_setWith _ d Json.sparesUnits_readBoolean cs
  · exact sparesUnits_setWith _ d Json.sparesUnits_readString cs
  · exact sparesUnits_setWith _ d Json.sparesUnits_readString cs
  · exact sparesUnits_setWith _ d Json.sparesUnits_readOptionalString cs
  · exact sparesUnits_setWith _ d sparesUnits_readLexicon cs
  · exact sparesUnits_setWith _ d sparesUnits_readAlternatives cs
  · exact sparesUnits_setWith _ d sparesUnits_readLexicon cs
  · exact absurd hunits hname
  · exact sparesUnits_setWith _ d Json.sparesUnits_readBoolean cs
  · exact sparesUnits_setWith _ d Json.sparesUnits_readBoolean cs

theorem readUnits_eq_error {cs r : List Char} {v : Value}
    (hvalue : Json.value (Json.deepestNesting - 1) cs = .ok (v, r)) :
    readUnits cs = .error (.shape (.units e)) ↔ UnitSet.ofValue v = .error e := by
  rw [readUnits, hvalue]
  cases hunits : UnitSet.ofValue v <;> simp [hunits, bind, Except.bind, Except.mapError]

/-! ## Members -/

theorem lookup_units : ∃ set, fields.lookup "units" = some (setWith readUnits set) := ⟨_, rfl⟩

/-- A member fails for its units when it is the first of that name and its value is wrong. -/
theorem readMember_eq_error {inside r : List Char} {m : String × Value}
    (hentry : Json.entry Json.string (Json.value (Json.deepestNesting - 1)) inside = .ok (m, r)) :
    readMember draft inside = .error (.shape (.units e)) ↔
      m.1 = "units" ∧ "units" ∉ draft.seen ∧ UnitSet.ofValue m.2 = .error e := by
  obtain ⟨cs₁, cs₂, hname, hcolon, hvalue⟩ := Json.entry_eq_ok.1 hentry
  constructor
  · intro h
    cases hlookup : fields.lookup m.1 with
    | none =>
      rw [readMember_of_unknown hname hcolon hlookup] at h
      exact absurd h ((Json.sparesUnits_skip cs₂).bind (fun _ => Json.sparesUnits_ok _) e)
    | some read =>
      have hnew : m.1 ∉ draft.seen := by
        intro hseen
        rw [readMember_of_seen hname hlookup hseen] at h
        cases h
      rw [readMember_of_known hname hcolon hlookup hnew] at h
      by_cases hunits : m.1 = "units"
      · rw [hunits] at hlookup hnew
        cases hlookup
        rcases bind_eq_error.1 h with h | ⟨x, -, h⟩
        · rcases bind_eq_error.1 h with h | ⟨x, -, h⟩
          · exact ⟨hunits, hnew, (readUnits_eq_error hvalue).1 h⟩
          · cases h
        · cases h
      · have hspares := sparesUnits_field hlookup hunits draft.descriptor cs₂
        exact absurd h (hspares.bind (fun _ => Json.sparesUnits_ok _) e)
  · rintro ⟨hunits, hnew, hvalue'⟩
    obtain ⟨set, hlookup⟩ := lookup_units
    rw [hunits] at hname
    rw [readMember_of_known hname hcolon hlookup hnew]
    have hread := (readUnits_eq_error hvalue).2 hvalue'
    exact bind_eq_error.2 (.inl (bind_eq_error.2 (.inl hread)))

/-! ## Texts -/

/-- The text begins an object with these members, and none of them has a fault as a field. -/
def ReadsFields (text : String) (ms : List (String × Value)) : Prop :=
  ∃ rest s, Json.skipBlank text.toList = '{' :: rest ∧
    Run (PassesMember readMember (Json.value (Json.deepestNesting - 1)))
      ({ seen := [], descriptor := blank }, true, rest) ms s

theorem sparesUnits_finish (draft : Draft) : SparesUnits draft.finish := by
  unfold Draft.finish
  split <;> simp

theorem decode_eq_error_iff_members {rest : List Char}
    (hcs : Json.skipBlank text.toList = '{' :: rest) :
    decode text = .error (.shape (.units e)) ↔
      Json.members readMember (rest.length + 1) true { seen := [], descriptor := blank } rest
        = .error (.shape (.units e)) := by
  rw [decode, reader, hcs]
  constructor
  · intro h
    rcases bind_eq_error.1 h with h | ⟨⟨d, rest'⟩, -, h⟩
    · rcases bind_eq_error.1 h with h | ⟨⟨draft, rest'⟩, -, h⟩
      · exact h
      · exact absurd h ((sparesUnits_finish draft).bind (fun _ => Json.sparesUnits_ok _) e)
    · exact absurd h ((Json.sparesUnits_endOfText rest').bind (fun _ => Json.sparesUnits_ok _) e)
  · intro h
    exact bind_eq_error.2 (.inl (bind_eq_error.2 (.inl h)))

theorem Follows.units_mem_iff (h : Follows draft ms) :
    "units" ∈ draft.seen ↔ "units" ∈ ms.map (·.1) := by
  rw [h.seen, List.mem_filter, List.mem_reverse]
  exact and_iff_left rfl

/-- Decoding fails for units when the first member of that name is wrong and those before it are
not. -/
theorem decode_eq_error (hms : Json.writtenMembers text = .ok ms) :
    decode text = .error (.shape (.units e)) ↔
      ∃ before v after, ms = before ++ ("units", v) :: after ∧ "units" ∉ before.map (·.1) ∧
        ReadsFields text before ∧ UnitSet.ofValue v = .error e := by
  obtain ⟨rest, rest', hcs, hwritten, -⟩ := Json.writtenMembers_eq_ok.1 hms
  rw [decode_eq_error_iff_members hcs, Json.members_eq_turns]
  rw [Json.written, Json.members_eq_turns] at hwritten
  obtain ⟨ms', q, hms', hlength, hrun, hclose⟩ := Json.run_of_written hwritten
  rw [List.nil_append] at hms'
  subst hms'
  have hstep := fun (draft : Draft) (ms : List (String × Value)) (h : Follows draft ms) =>
    lockstep_readMember h
  constructor
  · intro h
    obtain ⟨before, ⟨name, v⟩, after, draft, q', inside, r', rfl, hpasses, -, hentry, hfault⟩ :=
      Json.exists_member_of_error hstep follows_blank hrun hclose hlength h
    obtain ⟨rfl, hnew, hv⟩ := (readMember_eq_error hentry).1 hfault
    have hfollows := Json.related_of_passes hstep follows_blank hpasses
    rw [hfollows.units_mem_iff, List.nil_append] at hnew
    exact ⟨before, v, after, rfl, hnew, ⟨rest, _, hcs, hpasses⟩, hv⟩
  · rintro ⟨before, v, after, rfl, hnew, ⟨rest₁, ⟨draft, q'⟩, hcs₁, hpasses⟩, hv⟩
    cases hcs.symm.trans hcs₁
    obtain ⟨mid, hbefore, hrest⟩ := Json.run_split hrun
    obtain rfl := Json.run_unique hbefore (Json.run_of_passes hpasses)
    cases hrest with
    | cons hnext _ =>
      obtain ⟨inside, r, hturn, hentry, -⟩ := hnext
      have hfollows := Json.related_of_passes hstep follows_blank hpasses
      rw [← List.nil_append before, ← hfollows.units_mem_iff] at hnew
      refine Json.turns_eq_error hpasses hturn ((readMember_eq_error hentry).2 ⟨rfl, hnew, hv⟩) ?_
      rw [List.length_append, List.length_cons] at hlength
      omega

/-! ## Loading -/

theorem validate_ne_json (d : Descriptor) (f : JsonFault) : d.validate ≠ .error (.json f) := by
  intro h
  rcases bind_eq_error.1 h with h | ⟨t, -, h⟩
  · rcases bind_eq_error.1 h with h | ⟨es, -, h⟩
    · cases he : d.exponents <;> rw [he] at h <;> cases h
    · cases ht : ScaleTable.ofExponents es <;> rw [ht] at h <;> cases h
  · split at h <;> cases h

section

variable {v : Value} (hparse : Json.parse text = .ok v)
include hparse

theorem load_of_wrong_units
    (h : UnitSet.ofValue ((v.member? "units").getD .null) = .error e) :
    load text = .error (.units e) := by
  simp [load, hparse, h, bind, Except.bind, Except.mapError]

theorem load_eq_json {units : UnitSet}
    (h : UnitSet.ofValue ((v.member? "units").getD .null) = .ok units) {f : JsonFault} :
    load text = .error (.json f) ↔ decode text = .error f := by
  have hload : load text
      = (decode text).mapError .json >>= fun d => d.validate >>= fun _ => .ok d := by
    simp [load, hparse, h, bind, Except.bind, Except.mapError]
  rw [hload]
  constructor
  · intro h
    rcases bind_eq_error.1 h with h | ⟨d, -, h⟩
    · cases hdecode : decode text with
      | error f' =>
        rw [hdecode] at h
        cases h
        rfl
      | ok d =>
        rw [hdecode] at h
        cases h
    · rcases bind_eq_error.1 h with h | ⟨_, -, h⟩
      · exact absurd h (validate_ne_json d f)
      · cases h
  · intro h
    rw [h]
    rfl

/-- Units that are named once are tested before anything else is decoded. -/
theorem load_of_single_units (hms : Json.writtenMembers text = .ok ms)
    (hcount : (ms.map (·.1)).count "units" ≤ 1) {w : Value} (hw : ("units", w) ∈ ms)
    (h : UnitSet.ofValue w = .error e) : load text = .error (.units e) := by
  obtain ⟨before, after, rfl⟩ := List.append_of_mem hw
  have hlast : "units" ∉ after.map (·.1) := by
    intro hmem
    have hpos := List.count_pos_iff.2 hmem
    rw [List.map_append, List.map_cons, List.count_append, List.count_cons_self] at hcount
    omega
  have hstands : SortedMap.Stands (before ++ ("units", w) :: after) ("units", w) :=
    ⟨before, after, rfl, hlast⟩
  cases hparse.symm.trans (Json.parse_eq_object.2 ⟨_, hms, rfl⟩)
  refine load_of_wrong_units hparse ?_
  rw [Json.member?_of_stands hstands]
  exact h

/-- Wrong units of the value are a fault of units, whatever else is wrong.  A fault of the text is
raised by units exactly when those of the value are right, the first that the text names are wrong,
and no member before them is.  So it is never raised if the text names units once. -/
theorem load_units_fault :
    (∀ e, UnitSet.ofValue ((v.member? "units").getD .null) = .error e →
        load text = .error (.units e)) ∧
      (∀ e, load text = .error (.json (.shape (.units e))) ↔
        (∃ units, UnitSet.ofValue ((v.member? "units").getD .null) = .ok units) ∧
        ∃ before w after, Json.writtenMembers text = .ok (before ++ ("units", w) :: after) ∧
          "units" ∉ before.map (·.1) ∧ ReadsFields text before ∧ UnitSet.ofValue w = .error e) ∧
      ∀ ms, Json.writtenMembers text = .ok ms → (ms.map (·.1)).count "units" ≤ 1 →
        (∀ w e, ("units", w) ∈ ms → UnitSet.ofValue w = .error e →
          load text = .error (.units e)) ∧
        ∀ e, load text ≠ .error (.json (.shape (.units e))) := by
  have hjson (e : UnitsFault) : load text = .error (.json (.shape (.units e))) ↔
      (∃ units, UnitSet.ofValue ((v.member? "units").getD .null) = .ok units) ∧
      ∃ before w after, Json.writtenMembers text = .ok (before ++ ("units", w) :: after) ∧
        "units" ∉ before.map (·.1) ∧ ReadsFields text before ∧ UnitSet.ofValue w = .error e := by
    cases hunits : UnitSet.ofValue ((v.member? "units").getD .null) with
    | error e' =>
      rw [load_of_wrong_units hparse hunits]
      simp
    | ok units =>
      obtain ⟨entries, rfl⟩ := object_of_units hunits
      obtain ⟨ms, hms, -⟩ := Json.parse_eq_object.1 hparse
      rw [load_eq_json hparse hunits, decode_eq_error hms]
      constructor
      · rintro ⟨before, w, after, rfl, hfirst⟩
        exact ⟨⟨units, rfl⟩, before, w, after, hms, hfirst⟩
      · rintro ⟨-, before, w, after, hms', hfirst⟩
        cases hms.symm.trans hms'
        exact ⟨before, w, after, rfl, hfirst⟩
  refine ⟨fun e => load_of_wrong_units hparse, hjson, fun ms hms hcount => ?_⟩
  have hsingle : ∀ w e, ("units", w) ∈ ms → UnitSet.ofValue w = .error e →
      load text = .error (.units e) := fun w e hw => load_of_single_units hparse hms hcount hw
  refine ⟨hsingle, fun e hload => ?_⟩
  obtain ⟨-, before, w, after, hms', -, -, hw⟩ := (hjson e).1 hload
  cases hms.symm.trans hms'
  cases hload.symm.trans (hsingle w e (List.mem_append_right _ List.mem_cons_self) hw)

end

/-- A number and then a list in the place of the units. -/
def unitsTwiceText : String :=
  "\x7b\"base\": \x7b\"1\": \"one\"\x7d, \"units\": 42, \"units\": [\"hundred\"]\x7d"

/-- The list is what is tested and the number is what is decoded. -/
theorem units_twice :
    let e : UnitsFault := .notCollection .number
    ∃ v, Json.parse unitsTwiceText = .ok v ∧
      load unitsTwiceText = .error (.json (.shape (.units e))) ∧
      load unitsTwiceText ≠ .error (.units e) ∧
      ∃ ms, Json.writtenMembers unitsTwiceText = .ok ms ∧ 1 < (ms.map (·.1)).count "units" := by
  intro e
  have hload : load unitsTwiceText = .error (.json (.shape (.units e))) := by decide +kernel
  have hread : (Json.parse unitsTwiceText).toBool = true := by decide +kernel
  obtain ⟨v, hparse⟩ : ∃ v, Json.parse unitsTwiceText = .ok v := by
    cases hparse : Json.parse unitsTwiceText with
    | error f =>
      rw [hparse] at hread
      cases hread
    | ok v => exact ⟨v, rfl⟩
  obtain ⟨-, hfault, honce⟩ := load_units_fault hparse
  obtain ⟨-, before, w, after, hms, -⟩ := (hfault e).1 hload
  have hother : load unitsTwiceText ≠ .error (.units e) := by
    rw [hload]
    intro h
    cases h
  refine ⟨v, hparse, hload, hother, _, hms, Nat.lt_of_not_le fun hcount => ?_⟩
  exact (honce _ hms hcount).2 e hload

end Descriptor
end NumberWords
