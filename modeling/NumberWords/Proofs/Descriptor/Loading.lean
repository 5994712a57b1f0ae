import NumberWords.Proofs.Descriptor.RoundTrip
import NumberWords.Proofs.Json.Skipping
import NumberWords.Proofs.Json.Typed

/-!
Loading a descriptor beside decoding it.

A text that is loaded is read twice, as a value and as a descriptor.  The value keeps the last of
members with one name, and the descriptor takes no field twice.  Both go through the same members in
lockstep (`lockstep_readMember`), so the units for which the value is tested are those of the
descriptor.  Of what can be decoded the first reading turns away lists of fields, and objects with
unknown members that are passed over but are no values: nested too deep, a number out of range, or
half a pair of surrogates.
-/

namespace NumberWords
namespace Descriptor

open Json (Value Reader Lockstep Agree)
open Fallible

/-! ## Fields -/

theorem agree_readLexicon (depth : Nat) : Agree readLexicon (Json.value depth) :=
  Json.agree_readMap (f := fun (l : Lexicon) k w => l.insert k w) Json.agree_naturalName
    Json.agree_readString

theorem agree_readAlternatives (depth : Nat) : Agree readAlternatives (Json.value depth) :=
  Json.agree_readMap (f := fun (m : SortedMap String Lexicon) name l => m.insert name l)
    (Agree.refl _) agree_readLexicon

/-- The units are those of the value that stands in their place. -/
theorem lockstep_readUnits :
    Lockstep (fun units v => UnitSet.ofValue v = .ok units) readUnits
      (Json.value (Json.deepestNesting - 1)) := by
  intro cs units r v r' hread hvalue
  obtain ⟨⟨v', rest⟩, hvalue', hread⟩ := bind_eq_ok.1 hread
  cases hvalue.symm.trans hvalue'
  obtain ⟨units', hunits, hread⟩ := bind_eq_ok.1 hread
  cases hread
  exact ⟨rfl, mapError_eq_ok.1 hunits⟩

theorem lockstep_setWith {α : Type} {read : Reader α} {set : Descriptor → α → Descriptor}
    {d : Descriptor} {q : Reader Value} {R : α → Value → Prop} {S : Descriptor → Value → Prop}
    (h : Lockstep R read q) (hset : ∀ a v, R a v → S (set d a) v) :
    Lockstep S (setWith read set d) q := by
  intro cs d' r v r' hp hq
  obtain ⟨⟨a, rest⟩, hread, hp⟩ := bind_eq_ok.1 hp
  cases hp
  obtain ⟨hrest, ha⟩ := h hread hq
  exact ⟨hrest, hset a v ha⟩

/-- What reading a field does to the units: nothing, unless it is theirs. -/
def SetsUnits (name : String) (d d' : Descriptor) (v : Value) : Prop :=
  if name = "units" then UnitSet.ofValue v = .ok d'.units else d'.units = d.units

theorem lockstep_field {name : String} {read : Descriptor → Reader Descriptor}
    (h : fields.lookup name = some read) (d : Descriptor) :
    Lockstep (SetsUnits name d) (read d) (Json.value (Json.deepestNesting - 1)) := by
  have hmem := Json.mem_of_lookup h
  simp only [fields, List.mem_cons, Prod.mk.injEq, List.not_mem_nil, or_false] at hmem
  rcases hmem with ⟨rfl, rfl⟩ | ⟨rfl, rfl⟩ | ⟨rfl, rfl⟩ | ⟨rfl, rfl⟩ | ⟨rfl, rfl⟩ | ⟨rfl, rfl⟩ |
    ⟨rfl, rfl⟩ | ⟨rfl, rfl⟩ | ⟨rfl, rfl⟩ | ⟨rfl, rfl⟩
  · exact lockstep_setWith (Json.agree_readBoolean _) fun _ _ _ => rfl
  · exact lockstep_setWith (Json.agree_readString _) fun _ _ _ => rfl
  · exact lockstep_setWith (Json.agree_readString _) fun _ _ _ => rfl
  · exact lockstep_setWith (Json.agree_readOptionalString _) fun _ _ _ => rfl
  · exact lockstep_setWith (agree_readLexicon _) fun _ _ _ => rfl
  · exact lockstep_setWith (agree_readAlternatives _) fun _ _ _ => rfl
  · exact lockstep_setWith (agree_readLexicon _) fun _ _ _ => rfl
  · exact lockstep_setWith lockstep_readUnits fun _ _ hunits => hunits
  · exact lockstep_setWith (Json.agree_readBoolean _) fun _ _ _ => rfl
  · exact lockstep_setWith (Json.agree_readBoolean _) fun _ _ _ => rfl

/-! ## Members -/

def isField (name : String) : Bool := (fields.lookup name).isSome

/-- A draft beside the members that have been read: it has seen each field among them, none twice,
and its units are those of their member. -/
structure Follows (draft : Draft) (ms : List (String × Value)) : Prop where
  seen : draft.seen = (ms.map (·.1)).reverse.filter isField
  nodup : draft.seen.Nodup
  units : ∀ v, ("units", v) ∈ ms → UnitSet.ofValue v = .ok draft.descriptor.units

variable {draft : Draft} {ms : List (String × Value)} {name : String} {v : Value}

theorem Follows.mem_seen (h : Follows draft ms) (hm : (name, v) ∈ ms)
    (hfield : isField name = true) : name ∈ draft.seen := by
  rw [h.seen, List.mem_filter, List.mem_reverse]
  exact ⟨List.mem_map_of_mem hm, hfield⟩

theorem Follows.known (h : Follows draft ms) {d' : Descriptor} (hfield : isField name = true)
    (hnew : name ∉ draft.seen) (hsets : SetsUnits name draft.descriptor d' v) :
    Follows { seen := name :: draft.seen, descriptor := d' } (ms ++ [(name, v)]) where
  seen := by simp [h.seen, hfield]
  nodup := List.nodup_cons.2 ⟨hnew, h.nodup⟩
  units v' hm := by
    rcases List.mem_append.1 hm with hm | hm
    · -- The units have been seen, so this is another field.
      have hne : name ≠ "units" := fun hname => hnew (hname ▸ h.mem_seen hm rfl)
      rw [SetsUnits, if_neg hne] at hsets
      rw [hsets]
      exact h.units v' hm
    · obtain ⟨rfl, rfl⟩ := Prod.mk.inj (List.mem_singleton.1 hm)
      rwa [SetsUnits, if_pos rfl] at hsets

theorem Follows.unknown (h : Follows draft ms) (hfield : isField name = false) :
    Follows draft (ms ++ [(name, v)]) where
  seen := by simp [h.seen, hfield]
  nodup := h.nodup
  units v' hm := by
    rcases List.mem_append.1 hm with hm | hm
    · exact h.units v' hm
    · obtain ⟨rfl, -⟩ := Prod.mk.inj (List.mem_singleton.1 hm)
      cases hfield

section

variable {cs cs₁ cs₂ : List Char} {read : Descriptor → Reader Descriptor}

theorem readMember_of_known (hname : Json.string cs = .ok (name, cs₁))
    (hcolon : Json.colon cs₁ = .ok ((), cs₂)) (hlookup : fields.lookup name = some read)
    (hnew : name ∉ draft.seen) :
    readMember draft cs = (do
      let (d, rest) ← read draft.descriptor cs₂
      .ok ({ seen := name :: draft.seen, descriptor := d }, rest)) := by
  simp [readMember, hname, hlookup, hnew, hcolon, bind, Except.bind]

theorem readMember_of_seen (hname : Json.string cs = .ok (name, cs₁))
    (hlookup : fields.lookup name = some read) (hseen : name ∈ draft.seen) :
    readMember draft cs = .error (.shape (.repeated name)) := by
  simp [readMember, hname, hlookup, hseen, bind, Except.bind]

theorem readMember_of_unknown (hname : Json.string cs = .ok (name, cs₁))
    (hcolon : Json.colon cs₁ = .ok ((), cs₂)) (hlookup : fields.lookup name = none) :
    readMember draft cs = (do
      let ((), rest) ← Json.skip cs₂
      .ok (draft, rest)) := by
  simp [readMember, hname, hlookup, hcolon, bind, Except.bind]

end

/-- A descriptor and a value that are read from one text read each member together. -/
theorem lockstep_readMember (h : Follows draft ms) :
    Lockstep Follows (readMember draft)
      (Json.writtenMember (Json.value (Json.deepestNesting - 1)) ms) := by
  intro cs draft' r ms' r' hp hq
  obtain ⟨⟨⟨name, v⟩, rest⟩, hentry, hq⟩ := bind_eq_ok.1 hq
  cases hq
  obtain ⟨cs₁, cs₂, hname, hcolon, hvalue⟩ := Json.entry_eq_ok.1 hentry
  cases hlookup : fields.lookup name with
  | none =>
    rw [readMember_of_unknown hname hcolon hlookup] at hp
    obtain ⟨⟨⟨⟩, cs₃⟩, hskip, hp⟩ := bind_eq_ok.1 hp
    cases hp
    obtain ⟨hrest, -⟩ := Json.agree_value _ _ hvalue hskip
    have hfield : isField name = false := by rw [isField, hlookup]; rfl
    exact ⟨hrest.symm, h.unknown hfield⟩
  | some read =>
    have hfield : isField name = true := by rw [isField, hlookup]; rfl
    by_cases hseen : name ∈ draft.seen
    · rw [readMember_of_seen hname hlookup hseen] at hp
      cases hp
    · rw [readMember_of_known hname hcolon hlookup hseen] at hp
      obtain ⟨⟨d, cs₃⟩, hread, hp⟩ := bind_eq_ok.1 hp
      cases hp
      obtain ⟨hrest, hsets⟩ := lockstep_field hlookup draft.descriptor hread hvalue
      exact ⟨hrest, h.known hfield hseen hsets⟩

theorem follows_blank : Follows { seen := [], descriptor := blank } [] where
  seen := rfl
  nodup := List.nodup_nil
  units _ hm := absurd hm List.not_mem_nil

/-! ## Texts -/

theorem Draft.finish_eq_ok {d : Descriptor} (h : draft.finish = .ok d) :
    draft.descriptor = d ∧ ∀ name ∈ required, name ∈ draft.seen := by
  rw [finish] at h
  split at h
  · cases h
  · next hnone =>
    cases h
    refine ⟨rfl, fun name hname => ?_⟩
    have hseen := List.find?_eq_none.1 hnone name hname
    simpa using hseen

/-- A descriptor that is decoded from an object has seen its members. -/
theorem follows_of_decode {text : String} {d : Descriptor} (hdecode : decode text = .ok d)
    (hms : Json.writtenMembers text = .ok ms) :
    ∃ draft, Follows draft ms ∧ draft.finish = .ok d := by
  obtain ⟨rest, rest', hcs, hwritten, -⟩ := Json.writtenMembers_eq_ok.1 hms
  obtain ⟨⟨d', left⟩, hreader, hdecode⟩ := bind_eq_ok.1 hdecode
  obtain ⟨⟨⟩, -, hdecode⟩ := bind_eq_ok.1 hdecode
  cases hdecode
  rw [reader, hcs] at hreader
  obtain ⟨⟨draft, left'⟩, hmembers, hreader⟩ := bind_eq_ok.1 hreader
  obtain ⟨d', hfinish, hreader⟩ := bind_eq_ok.1 hreader
  cases hreader
  have hfollows := Json.lockstep_members (fun _ _ => lockstep_readMember) follows_blank hmembers
    hwritten
  exact ⟨draft, hfollows.2, hfinish⟩

/-- The units among the members of the value are those of the descriptor. -/
theorem Follows.ofValue_member? {d : Descriptor} (h : Follows draft ms)
    (hfinish : draft.finish = .ok d) :
    UnitSet.ofValue (((Value.object (SortedMap.ofList ms).entries).member? "units").getD .null)
      = .ok d.units := by
  obtain ⟨rfl, hrequired⟩ := Draft.finish_eq_ok hfinish
  have hseen : "units" ∈ draft.seen := hrequired "units" (by simp [required])
  rw [h.seen, List.mem_filter, List.mem_reverse, ← SortedMap.mem_keys_ofList] at hseen
  rw [Value.member?]
  cases hlookup : (SortedMap.ofList ms).entries.lookup "units" with
  | none =>
    obtain ⟨m, hm, hname⟩ := List.mem_map.1 hseen.1
    have hne := List.lookup_eq_none_iff.1 hlookup m hm
    simp [hname] at hne
  | some v => exact h.units v (SortedMap.mem_of_mem_ofList (Json.mem_of_lookup hlookup))

theorem Follows.count_le_one (h : Follows draft ms) (hfield : isField name = true) :
    (ms.map (·.1)).count name ≤ 1 := by
  have hcount : draft.seen.count name = (ms.map (·.1)).count name := by
    rw [h.seen, List.count_filter hfield, List.count_reverse]
  rw [← hcount]
  exact List.nodup_iff_count_le_one.1 h.nodup name

/-- What is decoded from an object: its value tells the same units, and its members name no field
twice. -/
theorem units_of_decode {text : String} {d : Descriptor} {entries : List (String × Value)}
    (hparse : Json.parse text = .ok (.object entries)) (hdecode : decode text = .ok d) :
    UnitSet.ofValue (((Value.object entries).member? "units").getD .null) = .ok d.units ∧
      ∃ ms, Json.writtenMembers text = .ok ms ∧ entries = (SortedMap.ofList ms).entries ∧
        ∀ name ∈ fields.map (·.1), (ms.map (·.1)).count name ≤ 1 := by
  obtain ⟨ms, hms, rfl⟩ := Json.parse_eq_object.1 hparse
  obtain ⟨draft, hfollows, hfinish⟩ := follows_of_decode hdecode hms
  have hfield : ∀ name ∈ fields.map (·.1), isField name = true := by decide
  exact ⟨hfollows.ofValue_member? hfinish, ms, hms, rfl,
    fun name hname => hfollows.count_le_one (hfield name hname)⟩

theorem load_eq_ok {text : String} {d : Descriptor} :
    load text = .ok d ↔ ∃ v units, Json.parse text = .ok v ∧
      UnitSet.ofValue ((v.member? "units").getD .null) = .ok units ∧
      decode text = .ok d ∧ d.validate = .ok () := by
  constructor
  · intro h
    obtain ⟨v, hparse, h⟩ := bind_eq_ok.1 h
    obtain ⟨units, hunits, h⟩ := bind_eq_ok.1 h
    obtain ⟨d', hdecode, h⟩ := bind_eq_ok.1 h
    obtain ⟨⟨⟩, hvalid, h⟩ := bind_eq_ok.1 h
    cases h
    exact ⟨v, units, mapError_eq_ok.1 hparse, mapError_eq_ok.1 hunits, mapError_eq_ok.1 hdecode,
      hvalid⟩
  · rintro ⟨v, units, hparse, hunits, hdecode, hvalid⟩
    simp [load, hparse, hunits, hdecode, hvalid, Except.mapError, bind, Except.bind]

/-- A value that tells units is an object. -/
theorem object_of_units {v : Value} {units : UnitSet}
    (h : UnitSet.ofValue ((v.member? "units").getD .null) = .ok units) :
    ∃ entries, v = .object entries := by
  cases v with
  | object entries => exact ⟨entries, rfl⟩
  -- Other values have no members, and null is no collection of units.
  | _ => cases h

/-- Loading is decoding an object and validating the outcome.  The units that are tested beforehand
are those of the descriptor, and none of its fields is written twice. -/
theorem load_iff_decode_and_validate (text : String) (d : Descriptor) :
    (load text = .ok d ↔ (∃ entries, Json.parse text = .ok (.object entries)) ∧
        decode text = .ok d ∧ d.validate = .ok ()) ∧
      (load text = .ok d → ∃ ms v, Json.writtenMembers text = .ok ms ∧
        Json.parse text = .ok v ∧ v = .object (SortedMap.ofList ms).entries ∧
        UnitSet.ofValue ((v.member? "units").getD .null) = .ok d.units ∧
        ∀ name ∈ fields.map (·.1), (ms.map (·.1)).count name ≤ 1) := by
  have hobject (h : load text = .ok d) : (∃ entries, Json.parse text = .ok (.object entries)) ∧
      decode text = .ok d ∧ d.validate = .ok () := by
    obtain ⟨v, units, hparse, hunits, hdecode, hvalid⟩ := load_eq_ok.1 h
    obtain ⟨entries, rfl⟩ := object_of_units hunits
    exact ⟨⟨entries, hparse⟩, hdecode, hvalid⟩
  refine ⟨⟨hobject, ?_⟩, fun h => ?_⟩
  · rintro ⟨⟨entries, hparse⟩, hdecode, hvalid⟩
    obtain ⟨hunits, -⟩ := units_of_decode hparse hdecode
    exact load_eq_ok.2 ⟨.object entries, d.units, hparse, hunits, hdecode, hvalid⟩
  · obtain ⟨⟨entries, hparse⟩, hdecode, -⟩ := hobject h
    obtain ⟨hunits, ms, hms, rfl, hcount⟩ := units_of_decode hparse hdecode
    exact ⟨ms, _, hms, hparse, rfl, hunits, hcount⟩

theorem sparse_loaded :
    load sparseText = .ok sparse ∧ (∃ entries, Json.parse sparseText = .ok (.object entries)) ∧
      decode sparseText = .ok sparse ∧ sparse.validate = .ok () ∧
      ∃ ms v, Json.writtenMembers sparseText = .ok ms ∧
        Json.parse sparseText = .ok v ∧ v = .object (SortedMap.ofList ms).entries ∧
        UnitSet.ofValue ((v.member? "units").getD .null) = .ok sparse.units ∧
        ∀ name ∈ fields.map (·.1), (ms.map (·.1)).count name ≤ 1 := by
  have hload : load sparseText = .ok sparse := by decide +kernel
  obtain ⟨hiff, hunits⟩ := load_iff_decode_and_validate sparseText sparse
  obtain ⟨hobject, hdecode, hvalid⟩ := hiff.1 hload
  exact ⟨hload, hobject, hdecode, hvalid, hunits hload⟩

end Descriptor
end NumberWords
