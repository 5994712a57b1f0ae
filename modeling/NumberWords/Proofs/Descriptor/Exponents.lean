import NumberWords.Descriptor.Decode
import NumberWords.Proofs.SortedMap
import NumberWords.Proofs.Speller.Rungs

/-!
Units by exponent.

Each member of an object of units gives an exponent and a word.  One exponent has many keys (`2`,
`02`, `+2`), and of the members with one exponent the last is kept, so no unit is lost exactly when
the exponents differ (`units_of_object`).  The units that are left stand in ascending order, each at
the step of its exponent (`step_of_byExponent`).
-/

namespace NumberWords

open Json (Value)
open Fallible

namespace UnitSet

def unitOf? : String × Value → Option (UInt32 × String)
  | (key, .string w) => (exponent? key).map fun e => (e, w)
  | _ => none

variable {m : String × Value} {ms : List (String × Value)} {words words' : SortedMap UInt32 String}

theorem bindWord_eq_ok :
    bindWord words m.1 m.2 = .ok words' ↔
      ∃ u : UInt32 × String, unitOf? m = some u ∧ words.insert u.1 u.2 = words' := by
  obtain ⟨key, v⟩ := m
  unfold bindWord
  cases he : exponent? key with
  | none => cases v <;> simp [unitOf?, he]
  | some e => cases v <;> simp [unitOf?, he]

theorem foldlM_bindWord_eq_ok :
    ms.foldlM (fun words m => bindWord words m.1 m.2) words = .ok words' ↔
      ∃ us : List (UInt32 × String), ms.map unitOf? = us.map some ∧
        us.foldl (fun words u => words.insert u.1 u.2) words = words' := by
  induction ms generalizing words with
  | nil =>
    constructor
    · intro h
      cases h
      exact ⟨[], rfl, rfl⟩
    · rintro ⟨us, hus, rfl⟩
      obtain rfl := List.map_eq_nil_iff.1 hus.symm
      rfl
  | cons m ms ih =>
    rw [List.foldlM_cons, bind_eq_ok]
    constructor
    · rintro ⟨words₁, hm, hms⟩
      obtain ⟨u, hu, rfl⟩ := bindWord_eq_ok.1 hm
      obtain ⟨us, hus, hwords⟩ := ih.1 hms
      exact ⟨u :: us, by rw [List.map_cons, List.map_cons, hu, hus], hwords⟩
    · rintro ⟨us, hus, hwords⟩
      cases us with
      | nil => cases hus
      | cons u us =>
        obtain ⟨hu, hus⟩ := List.cons.inj hus
        exact ⟨_, bindWord_eq_ok.2 ⟨u, hu, rfl⟩, ih.2 ⟨us, hus, hwords⟩⟩

/-- An object is a collection of units when every member gives one. -/
theorem ofValue_object_eq_ok {units : UnitSet} :
    ofValue (.object ms) = .ok units ↔
      ∃ us : List (UInt32 × String),
        ms.map unitOf? = us.map some ∧ units = .byExponent (SortedMap.ofList us) := by
  rw [ofValue, map_eq_ok]
  constructor
  · rintro ⟨words, hwords, rfl⟩
    obtain ⟨us, hus, rfl⟩ := foldlM_bindWord_eq_ok.1 hwords
    exact ⟨us, hus, rfl⟩
  · rintro ⟨us, hus, rfl⟩
    exact ⟨_, foldlM_bindWord_eq_ok.2 ⟨us, hus, rfl⟩, rfl⟩

theorem keys_ascend (words : SortedMap UInt32 String) : words.keys.Pairwise (· < ·) :=
  List.pairwise_map.2 (words.ascending.imp compareOfLessAndEq_eq_lt.1)

end UnitSet

namespace Descriptor

theorem scaled_of_scale {d : Descriptor} {t : ScaleTable} (h : d.scale = .ok t) :
    ∃ es, Speller.Scaled { descriptor := d, scale := t } es :=
  (Speller.scaled_of_speller (speller_of_scale h)).2

theorem exponents_of_byExponent {d : Descriptor} {words : SortedMap UInt32 String}
    (hu : d.units = .byExponent words) {es : List Nat} (h : d.exponents = .ok es) :
    es = words.entries.map (·.1.toNat) := by
  unfold exponents at h
  simp only [hu] at h
  split_ifs at h
  cases h
  rw [SortedMap.keys, List.map_map]
  rfl

/-- Each unit by exponent stands at the step of its exponent. -/
theorem step_of_byExponent {d : Descriptor} {t : ScaleTable} {words : SortedMap UInt32 String}
    (hu : d.units = .byExponent words) (ht : d.scale = .ok t) {i : Nat} {e : UInt32} {w : String}
    (hi : words.entries[i]? = some (e, w)) :
    d.units.toList[i]? = some (.plain w) ∧ (t.step? i).map (·.threshold) = tenPow? e.toNat := by
  obtain ⟨es, h⟩ := scaled_of_scale ht
  have hes : es[i]? = some e.toNat := by
    rw [exponents_of_byExponent hu h.exponents, List.getElem?_map, hi]
    rfl
  constructor
  · rw [hu, UnitSet.toList, SortedMap.values, List.getElem?_map, List.getElem?_map, hi]
    rfl
  · rw [ScaleTable.step?, h.steps, ScaleTable.getElem?_stepsOf, hes, Option.map_some,
      Option.join_some]
    cases tenPow? e.toNat <;> rfl

end Descriptor

namespace UnitSet

/-- An object that is a collection of units has a unit for each member.  As many are kept as there
are members, and these very units, exactly when no two of them have one exponent; otherwise the last
of each exponent is kept.  The units stand in the order of their exponents, each beside the step of
its own. -/
theorem units_of_object {ms : List (String × Value)} {units : UnitSet}
    (h : ofValue (.object ms) = .ok units) :
    ∃ (us : List (UInt32 × String)) (words : SortedMap UInt32 String),
      ms.map unitOf? = us.map some ∧ units = .byExponent words ∧
      (units.size = ms.length ↔ (us.map (·.1)).Nodup) ∧
      ((us.map (·.1)).Nodup → words.entries.Perm us) ∧
      (∀ u, u ∈ words.entries ↔
        ∃ before after, us = before ++ u :: after ∧ u.1 ∉ after.map (·.1)) ∧
      words.keys.Pairwise (· < ·) ∧
      ∀ (d : Descriptor) t, d.units = units → d.scale = .ok t →
        t.steps.length = units.toList.length ∧
        ∀ i e w, words.entries[i]? = some (e, w) →
          units.toList[i]? = some (.plain w) ∧
          (t.step? i).map (·.threshold) = tenPow? e.toNat := by
  obtain ⟨us, hus, rfl⟩ := ofValue_object_eq_ok.1 h
  have hlength : ms.length = us.length := by
    rw [← List.length_map (f := unitOf?), hus, List.length_map]
  refine ⟨us, _, hus, rfl, ?_, SortedMap.perm_ofList, fun u => SortedMap.mem_ofList,
    keys_ascend _, fun d t hd ht => ?_⟩
  · rw [hlength]
    exact SortedMap.size_ofList_eq_iff
  · obtain ⟨es, hscaled⟩ := Descriptor.scaled_of_scale ht
    rw [← hd]
    exact ⟨hscaled.length, fun i e w => Descriptor.step_of_byExponent hd ht⟩

/-- Three members with three names and two exponents: the hundred named `2` is kept and the one
named `+2` is lost. -/
theorem hundred_named_twice :
    let ms : List (String × Value) :=
      [("+2", .string "cent"), ("10", .string "myriad"), ("2", .string "hundred")]
    let units : UnitSet := .byExponent { entries := [(2, "hundred"), (10, "myriad")] }
    (ms.map (·.1)).Nodup ∧ ofValue (.object ms) = .ok units ∧ units.size ≠ ms.length ∧
      ∃ us : List (UInt32 × String), ms.map unitOf? = us.map some ∧ ¬ (us.map (·.1)).Nodup := by
  intro ms units
  have h : ofValue (.object ms) = .ok units := by decide +kernel
  obtain ⟨us, words, hus, -, hsize, -⟩ := units_of_object h
  have hne : units.size ≠ ms.length := by decide
  exact ⟨by decide, h, hne, us, hus, fun hnodup => hne (hsize.2 hnodup)⟩

end UnitSet
end NumberWords
