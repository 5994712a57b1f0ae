import Mathlib.Data.List.Zip
import NumberWords.Descriptor.Decode
import NumberWords.Proofs.Fallible
import NumberWords.Proofs.Json.Normal

/-!
Units by the values of their fields.

A unit is the list of the values of its fields (`InflectedUnit.values`), and setting a field puts a
value at its place of the list (`InflectedUnit.Sets`).  So an object is a unit whatever the order of
its members, if each has a value of its field's type and the singular is there; a field has the last
value of its name, or its default (`InflectedUnit.Describes`).  A value that stands alone and one
that stands in a list of units are read alike, but for lists of field values, which are units alone
only (`ScaleUnit.alone_and_in_list`).
-/

namespace NumberWords

open Json (Value)
open Fallible

namespace Json
namespace Value

def ofOptionalString : Option String → Value
  | none => .null
  | some s => .string s

def ofCounts (counts : List UInt64) : Value := .array (counts.map fun c => .number (.natural c))

variable {v : Value}

theorem asString_eq_ok {s : String} : v.asString = .ok s ↔ v = .string s := by
  cases v <;> simp [asString]

theorem asBoolean_eq_ok {b : Bool} : v.asBoolean = .ok b ↔ v = .boolean b := by
  cases v <;> simp [asBoolean]

theorem asOptionalString_eq_ok {s : Option String} :
    v.asOptionalString = .ok s ↔ v = ofOptionalString s := by
  cases s with
  | none => cases v <;> simp [asOptionalString, asString, ofOptionalString, Functor.map, Except.map]
  | some s =>
    cases v <;> simp [asOptionalString, asString, ofOptionalString, Functor.map, Except.map]

theorem asCount_eq_ok {c : UInt64} : v.asCount = .ok c ↔ v = .number (.natural c) := by
  cases v with
  | number n => cases n <;> simp [asCount]
  | null | boolean | string | array | object => simp [asCount]

theorem mapM_asCount_eq_ok {items : List Value} {counts : List UInt64} :
    items.mapM asCount = .ok counts ↔ items = counts.map fun c => .number (.natural c) := by
  induction items generalizing counts with
  | nil =>
    rw [List.mapM_nil]
    cases counts <;> simp [pure, Except.pure]
  | cons item items ih =>
    simp only [List.mapM_cons, bind_eq_ok, asCount_eq_ok, ih]
    cases counts with
    | nil => simp [pure, Except.pure]
    | cons c counts => simp [pure, Except.pure]

theorem asCounts_eq_ok {counts : List UInt64} : v.asCounts = .ok counts ↔ v = ofCounts counts := by
  cases v with
  | array items => simp [asCounts, ofCounts, mapM_asCount_eq_ok]
  | null | boolean | number | string | object => simp [asCounts, ofCounts]

theorem ofOptionalString_inj {s s' : Option String} :
    ofOptionalString s = ofOptionalString s' ↔ s = s' := by
  cases s <;> cases s' <;> simp [ofOptionalString]

theorem ofCounts_inj {counts counts' : List UInt64} :
    ofCounts counts = ofCounts counts' ↔ counts = counts' := by
  rw [ofCounts, ofCounts, Value.array.injEq]
  exact List.map_inj_right (by simp)

end Value
end Json

namespace InflectedUnit

def values (u : InflectedUnit) : List Value :=
  [.string u.singular, .ofOptionalString u.plural, .ofOptionalString u.few,
    .ofOptionalString u.dual, .boolean u.singularEnding, .boolean u.fewEnding,
    .ofCounts u.endingExceptions, .ofCounts u.bareCounts, .boolean u.singularBeforeTail,
    .boolean u.pluralUpToTen, .boolean u.compound, .ofCounts u.compoundExceptions,
    .boolean u.exceptionsNeedTail, .ofOptionalString u.countBase, .boolean u.keepsAnd]

theorem values_injective {u u' : InflectedUnit} (h : u.values = u'.values) : u = u' := by
  cases u
  cases u'
  simpa [values, Value.ofOptionalString_inj, Value.ofCounts_inj] using h

/-- Setting the field at a place puts its value there, whatever value of some unit's it is. -/
structure Sets (i : Nat) (set : Value → InflectedUnit → Except FieldFault InflectedUnit) :
    Prop where
  eq_ok : ∀ {v : Value} {u u' : InflectedUnit}, set v u = .ok u' ↔ u'.values = u.values.set i v
  exists_ok : ∀ {v : Value} {w : InflectedUnit}, w.values[i]? = some v → ∀ u, ∃ u', set v u = .ok u'

theorem sets_of {α : Type} (i : Nat) {read : Value → Except FieldFault α} {write : α → Value}
    (get : InflectedUnit → α) (put : α → InflectedUnit → InflectedUnit)
    (hread : ∀ {v a}, read v = .ok a ↔ v = write a)
    (hget : ∀ u, u.values[i]? = some (write (get u)))
    (hput : ∀ a u, (put a u).values = u.values.set i (write a)) :
    Sets i fun v u => do .ok (put (← read v) u) where
  eq_ok {v u u'} := by
    constructor
    · intro h
      obtain ⟨a, ha, h⟩ := bind_eq_ok.1 h
      cases h
      rw [hput, hread.1 ha]
    · intro h
      have hv : u'.values[i]? = some v := by
        obtain ⟨hi, -⟩ := List.getElem?_eq_some_iff.1 (hget u)
        rw [h, List.getElem?_set_self hi]
      rw [hget] at hv
      have ha : read v = .ok (get u') := hread.2 (Option.some.inj hv).symm
      refine bind_eq_ok.2 ⟨get u', ha, congrArg Except.ok (values_injective ?_)⟩
      rw [hput, Option.some.inj hv, h]
  exists_ok {v w} hw u := by
    rw [hget] at hw
    exact ⟨_, bind_eq_ok.2 ⟨get w, hread.2 (Option.some.inj hw).symm, rfl⟩⟩

/-- Each field is set at its own place. -/
theorem sets_of_getElem? {i : Nat} {name : String}
    {set : Value → InflectedUnit → Except FieldFault InflectedUnit}
    (h : fields[i]? = some (name, set)) : Sets i set := by
  match i, h with
  | 0, rfl =>
    exact sets_of 0 (·.singular) (fun a u => { u with singular := a })
      Value.asString_eq_ok (fun _ => rfl) fun _ _ => rfl
  | 1, rfl =>
    exact sets_of 1 (·.plural) (fun a u => { u with plural := a })
      Value.asOptionalString_eq_ok (fun _ => rfl) fun _ _ => rfl
  | 2, rfl =>
    exact sets_of 2 (·.few) (fun a u => { u with few := a })
      Value.asOptionalString_eq_ok (fun _ => rfl) fun _ _ => rfl
  | 3, rfl =>
    exact sets_of 3 (·.dual) (fun a u => { u with dual := a })
      Value.asOptionalString_eq_ok (fun _ => rfl) fun _ _ => rfl
  | 4, rfl =>
    exact sets_of 4 (·.singularEnding) (fun a u => { u with singularEnding := a })
      Value.asBoolean_eq_ok (fun _ => rfl) fun _ _ => rfl
  | 5, rfl =>
    exact sets_of 5 (·.fewEnding) (fun a u => { u with fewEnding := a })
      Value.asBoolean_eq_ok (fun _ => rfl) fun _ _ => rfl
  | 6, rfl =>
    exact sets_of 6 (·.endingExceptions) (fun a u => { u with endingExceptions := a })
      Value.asCounts_eq_ok (fun _ => rfl) fun _ _ => rfl
  | 7, rfl =>
    exact sets_of 7 (·.bareCounts) (fun a u => { u with bareCounts := a })
      Value.asCounts_eq_ok (fun _ => rfl) fun _ _ => rfl
  | 8, rfl =>
    exact sets_of 8 (·.singularBeforeTail) (fun a u => { u with singularBeforeTail := a })
      Value.asBoolean_eq_ok (fun _ => rfl) fun _ _ => rfl
  | 9, rfl =>
    exact sets_of 9 (·.pluralUpToTen) (fun a u => { u with pluralUpToTen := a })
      Value.asBoolean_eq_ok (fun _ => rfl) fun _ _ => rfl
  | 10, rfl =>
    exact sets_of 10 (·.compound) (fun a u => { u with compound := a })
      Value.asBoolean_eq_ok (fun _ => rfl) fun _ _ => rfl
  | 11, rfl =>
    exact sets_of 11 (·.compoundExceptions) (fun a u => { u with compoundExceptions := a })
      Value.asCounts_eq_ok (fun _ => rfl) fun _ _ => rfl
  | 12, rfl =>
    exact sets_of 12 (·.exceptionsNeedTail) (fun a u => { u with exceptionsNeedTail := a })
      Value.asBoolean_eq_ok (fun _ => rfl) fun _ _ => rfl
  | 13, rfl =>
    exact sets_of 13 (·.countBase) (fun a u => { u with countBase := a })
      Value.asOptionalString_eq_ok (fun _ => rfl) fun _ _ => rfl
  | 14, rfl =>
    exact sets_of 14 (·.keepsAnd) (fun a u => { u with keepsAnd := a })
      Value.asBoolean_eq_ok (fun _ => rfl) fun _ _ => rfl

/-! ## Fields by name -/

def names : List String := fields.map (·.1)

def blank : InflectedUnit := { singular := "" }

theorem names_nodup : names.Nodup := by decide

theorem length_values (u : InflectedUnit) : u.values.length = names.length := rfl

def replaced (name : String) (v : Value) (vs : List Value) : List Value :=
  List.zipWith (fun n old => if n = name then v else old) names vs

variable {u u' : InflectedUnit} {name : String} {v : Value}

theorem set_eq_replaced {i : Nat} (hi : names[i]? = some name) (v : Value) (u : InflectedUnit) :
    u.values.set i v = replaced name v u.values := by
  obtain ⟨hlt, rfl⟩ := List.getElem?_eq_some_iff.1 hi
  apply List.ext_getElem
  · simp [replaced, length_values]
  · intro j hj hj'
    have hj : j < names.length := by simpa [length_values] using hj
    have hiff : names[j] = names[i] ↔ i = j := names_nodup.getElem_inj_iff.trans eq_comm
    simp [replaced, List.getElem_set, hiff]

theorem replaced_of_not_mem (hname : name ∉ names) (v : Value) (u : InflectedUnit) :
    replaced name v u.values = u.values := by
  apply List.ext_getElem
  · simp [replaced, length_values]
  · intro j hj hj'
    have hj : j < names.length := by simpa [replaced, length_values] using hj
    have hne : names[j] ≠ name := fun h => hname (h ▸ List.getElem_mem _)
    simp [replaced, hne]

/-- A member of a known name has a value that this field has in some unit. -/
def Typed (m : String × Value) : Prop :=
  ∀ i : Nat, names[i]? = some m.1 → ∃ u : InflectedUnit, u.values[i]? = some m.2

/-- A name is that of no field, or of one at some place. -/
theorem setField_cases (name : String) :
    (name ∉ names ∧ ∀ v u, setField u name v = .ok u) ∨
      ∃ i, names[i]? = some name ∧ Sets i fun v u => setField u name v := by
  cases hlookup : fields.lookup name with
  | none =>
    refine .inl ⟨fun hmem => ?_, fun v u => by rw [setField, hlookup]⟩
    obtain ⟨f, hf, hname⟩ := List.mem_map.1 hmem
    have hne := List.lookup_eq_none_iff.1 hlookup f hf
    simp [hname] at hne
  | some set =>
    obtain ⟨i, hi⟩ := List.mem_iff_getElem?.1 (Json.mem_of_lookup hlookup)
    have hset : (fun v u => setField u name v) = set := by
      funext v u
      rw [setField, hlookup]
    refine .inr ⟨i, ?_, hset ▸ sets_of_getElem? hi⟩
    rw [names, List.getElem?_map, hi]
    rfl

theorem setField_eq_ok :
    u.setField name v = .ok u' ↔ u'.values = replaced name v u.values := by
  rcases setField_cases name with ⟨hname, hset⟩ | ⟨i, hi, hset⟩
  · rw [hset, replaced_of_not_mem hname, Except.ok.injEq]
    exact ⟨fun h => h ▸ rfl, fun h => (values_injective h).symm⟩
  · rw [← set_eq_replaced hi]
    exact hset.eq_ok

theorem exists_setField_iff (u : InflectedUnit) (m : String × Value) :
    (∃ u', u.setField m.1 m.2 = .ok u') ↔ Typed m := by
  rcases setField_cases m.1 with ⟨hname, hset⟩ | ⟨i, hi, hset⟩
  · exact ⟨fun _ i hi => absurd (List.mem_of_getElem? hi) hname, fun _ => ⟨u, hset _ _⟩⟩
  · constructor
    · rintro ⟨u', hu'⟩ j hj
      refine ⟨u', ?_⟩
      have hlt : j < u.values.length := (List.getElem?_eq_some_iff.1 hj).1
      rw [setField_eq_ok.1 hu', ← set_eq_replaced hj, List.getElem?_set_self hlt]
    · intro htyped
      obtain ⟨w, hw⟩ := htyped i hi
      exact hset.exists_ok hw u

/-- The values of fields in which each has the last that is given for its name. -/
def filled (ms : List (String × Value)) (vs : List Value) : List Value :=
  List.zipWith (fun name v => (ms.reverse.lookup name).getD v) names vs

theorem filled_nil (u : InflectedUnit) : filled [] u.values = u.values := by
  apply List.ext_getElem
  · simp [filled, length_values]
  · intro i hi hi'
    simp [filled]

theorem filled_cons (m : String × Value) (ms : List (String × Value)) (vs : List Value) :
    filled (m :: ms) vs = filled ms (replaced m.1 m.2 vs) := by
  have hlast (name : String) (v : Value) : ((m :: ms).reverse.lookup name).getD v =
      (ms.reverse.lookup name).getD (if name = m.1 then m.2 else v) := by
    rw [List.reverse_cons, List.lookup_append, List.lookup_cons]
    by_cases hname : name = m.1
    · simp [hname]
    · simp [hname, beq_false_of_ne hname]
  rw [filled, filled, replaced, List.zipWith_zipWith_right, List.zipWith3_same_left]
  simp only [hlast]

/-- Members are read one after another: each has to be of its type, the last of a name counts. -/
theorem foldlM_setField_eq_ok {ms : List (String × Value)} :
    ms.foldlM (fun u m => u.setField m.1 m.2) u = .ok u' ↔
      (∀ m ∈ ms, Typed m) ∧ u'.values = filled ms u.values := by
  induction ms generalizing u with
  | nil =>
    rw [filled_nil, List.foldlM_nil]
    constructor
    · intro h
      cases h
      exact ⟨fun _ hm => (nomatch hm), rfl⟩
    · rintro ⟨-, h⟩
      rw [values_injective h]
      rfl
  | cons m ms ih =>
    rw [List.foldlM_cons, bind_eq_ok]
    constructor
    · rintro ⟨u₁, hm, hms⟩
      obtain ⟨htyped, hvalues⟩ := ih.1 hms
      refine ⟨List.forall_mem_cons.2 ⟨(exists_setField_iff u m).1 ⟨u₁, hm⟩, htyped⟩, ?_⟩
      rw [hvalues, setField_eq_ok.1 hm, filled_cons]
    · rintro ⟨htyped, hvalues⟩
      obtain ⟨hm, hms⟩ := List.forall_mem_cons.1 htyped
      obtain ⟨u₁, hu₁⟩ := (exists_setField_iff u m).2 hm
      refine ⟨u₁, hu₁, ih.2 ⟨hms, ?_⟩⟩
      rw [hvalues, setField_eq_ok.1 hu₁, filled_cons]

/-- The members of an object describe a unit: the singular is among them, each is of the type of its
field, and a field has the value of the last member of its name, or its default. -/
structure Describes (ms : List (String × Value)) (u : InflectedUnit) : Prop where
  singular : "singular" ∈ ms.map (·.1)
  typed : ∀ m ∈ ms, Typed m
  values : u.values = filled ms blank.values

theorem ofMembers_eq_ok {ms : List (String × Value)} : ofMembers ms = .ok u ↔ Describes ms u := by
  have hsingular : ms.any (·.1 == "singular") = true ↔ "singular" ∈ ms.map (·.1) := by
    simp only [List.any_eq_true, beq_iff_eq, List.mem_map]
  rw [ofMembers, bind_eq_ok]
  constructor
  · rintro ⟨u', hfold, h⟩
    obtain ⟨htyped, hvalues⟩ := foldlM_setField_eq_ok.1 hfold
    by_cases hany : ms.any (·.1 == "singular") = true
    · rw [if_pos hany] at h
      cases h
      exact ⟨hsingular.1 hany, htyped, hvalues⟩
    · rw [if_neg hany] at h
      cases h
  · intro h
    exact ⟨u, foldlM_setField_eq_ok.2 ⟨h.typed, h.values⟩, if_pos (hsingular.2 h.singular)⟩

/-! ## Fields by place -/

def setPaired (u : InflectedUnit)
    (m : (String × (Value → InflectedUnit → Except FieldFault InflectedUnit)) × Value) :
    Except FieldFault InflectedUnit := m.1.2 m.2 u

theorem take_append_drop_of_set {vs vs' items : List Value} {i : Nat} (hi : i < vs.length)
    (h : vs' = vs.set i v) :
    vs'.take (i + 1) ++ items ++ vs'.drop (i + 1 + items.length) =
      vs.take i ++ v :: items ++ vs.drop (i + (v :: items).length) := by
  have htake : (vs.set i v).take (i + 1) = vs.take i ++ [v] := by
    rw [List.take_add_one, List.take_set_of_le (Nat.le_refl i), List.getElem?_set_self hi]
    rfl
  have hdrop : (vs.set i v).drop (i + 1 + items.length) =
      vs.drop (i + (v :: items).length) := by
    rw [List.drop_set_of_lt (by omega), List.length_cons, Nat.add_right_comm, Nat.add_assoc]
  rw [h, htake, hdrop, List.append_assoc _ [v], List.singleton_append]

/-- Values are read one after another into the fields from a place on. -/
theorem foldlM_items_eq_ok {items : List Value} {i : Nat} (hi : i + items.length ≤ fields.length) :
    ((fields.drop i).zip items).foldlM setPaired u = .ok u' ↔
      u'.values = u.values.take i ++ items ++ u.values.drop (i + items.length) := by
  induction items generalizing i u with
  | nil =>
    rw [List.zip_nil_right, List.foldlM_nil, List.append_nil, List.length_nil, Nat.add_zero,
      List.take_append_drop]
    constructor
    · intro h
      cases h
      rfl
    · intro h
      rw [values_injective h]
      rfl
  | cons v items ih =>
    rw [List.length_cons] at hi
    have hlt : i < fields.length := by omega
    have hset := sets_of_getElem? (List.getElem?_eq_getElem hlt)
    have hvalues : i < u.values.length := hlt
    rw [List.drop_eq_getElem_cons hlt, List.zip_cons_cons, List.foldlM_cons, bind_eq_ok]
    constructor
    · rintro ⟨u₁, hv, hitems⟩
      rw [(ih (by omega)).1 hitems, take_append_drop_of_set hvalues (hset.eq_ok.1 hv)]
    · intro h
      have hv : u'.values[i]? = some v := by
        have hlength : (u.values.take i).length = i :=
          List.length_take_of_le (Nat.le_of_lt hvalues)
        rw [h, List.append_assoc, List.getElem?_append_right (Nat.le_of_eq hlength), hlength,
          Nat.sub_self]
        rfl
      obtain ⟨u₁, hu₁⟩ := hset.exists_ok hv u
      refine ⟨u₁, hu₁, (ih (by omega)).2 ?_⟩
      rw [h, take_append_drop_of_set hvalues (hset.eq_ok.1 hu₁)]

/-- The items of a list give the values of the first fields, one for each; the others have their
defaults.  There is at least the singular. -/
structure Lists (items : List Value) (u : InflectedUnit) : Prop where
  singular : items ≠ []
  values : u.values = items ++ blank.values.drop items.length

theorem Lists.length_le {items : List Value} (h : Lists items u) :
    items.length ≤ fields.length := by
  have hlength := congrArg List.length h.values
  rw [List.length_append] at hlength
  have hvalues : u.values.length = fields.length := rfl
  omega

theorem ofItems?_eq_some {items : List Value} : ofItems? items = some u ↔ Lists items u := by
  have hread (hle : items.length ≤ fields.length) :
      ((fields.zip items).foldlM setPaired blank).toOption = some u ↔
        u.values = items ++ blank.values.drop items.length := by
    have hfold : ((fields.drop 0).zip items).foldlM setPaired blank = .ok u ↔ _ :=
      foldlM_items_eq_ok (by omega)
    rw [List.drop_zero, List.take_zero, List.nil_append, Nat.zero_add] at hfold
    rw [toOption_eq_some, hfold]
  rw [ofItems?]
  by_cases hnone : (items.isEmpty || fields.length < items.length) = true
  · rw [if_pos hnone]
    constructor
    · intro h
      cases h
    · intro h
      have hle := h.length_le
      have hne : items.isEmpty = false := List.isEmpty_eq_false_iff.2 h.singular
      simp [hne, Nat.not_lt.2 hle] at hnone
  · rw [if_neg hnone]
    simp only [Bool.or_eq_true, decide_eq_true_eq, not_or, List.isEmpty_iff, Nat.not_lt] at hnone
    exact (hread hnone.2).trans ⟨fun h => ⟨hnone.1, h⟩, Lists.values⟩

end InflectedUnit

/-! ## Units -/

namespace ScaleUnit

variable {v : Value} {u : ScaleUnit}

/-- The value is the word, or an object that describes the unit. -/
def WrittenAs (v : Value) : ScaleUnit → Prop
  | .plain w => v = .string w
  | .inflected u => ∃ ms, v = .object ms ∧ u.Describes ms

def ListedAs (v : Value) : ScaleUnit → Prop
  | .plain _ => False
  | .inflected u => ∃ items, v = .array items ∧ u.Lists items

theorem ofElement_eq_ok {index : Nat} : ofElement index v = .ok u ↔ u.WrittenAs v := by
  cases v with
  | string w => cases u <;> simp [ofElement, WrittenAs, eq_comm]
  | object ms =>
    show inflected <$> (InflectedUnit.ofMembers ms).mapError (UnitsFault.badUnit index) = .ok u ↔ _
    rw [map_eq_ok]
    simp only [mapError_eq_ok, InflectedUnit.ofMembers_eq_ok]
    cases u <;> simp [WrittenAs]
  | null | boolean | number | array => cases u <;> simp [ofElement, WrittenAs]

theorem ofValue_eq_ok : ofValue v = .ok u ↔ u.WrittenAs v ∨ u.ListedAs v := by
  have hvariant (o : Option InflectedUnit) :
      (o.map inflected).elim (Except.error ShapeFault.noVariant) .ok = .ok u ↔
        ∃ x, o = some x ∧ u = .inflected x := by
    cases o <;> simp [eq_comm]
  cases v with
  | string w => cases u <;> simp [ofValue, WrittenAs, ListedAs, eq_comm]
  | object ms =>
    rw [ofValue, hvariant]
    simp only [toOption_eq_some, InflectedUnit.ofMembers_eq_ok]
    cases u <;> simp [WrittenAs, ListedAs]
  | array items =>
    rw [ofValue, hvariant]
    simp only [InflectedUnit.ofItems?_eq_some]
    cases u <;> simp [WrittenAs, ListedAs]
  | null | boolean | number => cases u <;> simp [ofValue, WrittenAs, ListedAs]

theorem WrittenAs.kind (h : u.WrittenAs v) : v.kind = .string ∨ v.kind = .object := by
  cases u with
  | plain w => exact .inl (congrArg Value.kind h)
  | inflected u =>
    obtain ⟨ms, rfl, -⟩ := h
    exact .inr rfl

theorem ListedAs.kind (h : u.ListedAs v) : v.kind = .array := by
  cases u with
  | plain w => exact h.elim
  | inflected u =>
    obtain ⟨items, rfl, -⟩ := h
    rfl

end ScaleUnit

namespace UnitSet

theorem mapM_ofElement_eq_ok {vs : List Value} {us : List ScaleUnit} {start : Nat} :
    (vs.zipIdx start).mapM (fun (v, i) => ScaleUnit.ofElement i v) = .ok us ↔
      List.Forall₂ (fun v u => u.WrittenAs v) vs us := by
  induction vs generalizing us start with
  | nil =>
    rw [List.zipIdx_nil, List.mapM_nil]
    cases us <;> simp [pure, Except.pure]
  | cons v vs ih =>
    simp only [List.zipIdx_cons, List.mapM_cons, bind_eq_ok, ScaleUnit.ofElement_eq_ok, ih]
    constructor
    · rintro ⟨u, hu, rest, hrest, h⟩
      cases h
      exact .cons hu hrest
    · intro h
      cases h with
      | cons hu hrest => exact ⟨_, hu, _, hrest, rfl⟩

/-- A list is a collection of units when each of its elements is a unit, whatever its place. -/
theorem ofValue_array_eq_ok {vs : List Value} {s : UnitSet} :
    ofValue (.array vs) = .ok s ↔
      ∃ us, s = .ordered us ∧ List.Forall₂ (fun v u => u.WrittenAs v) vs us := by
  rw [ofValue, map_eq_ok]
  constructor
  · rintro ⟨us, hus, rfl⟩
    exact ⟨us, rfl, mapM_ofElement_eq_ok.1 hus⟩
  · rintro ⟨us, rfl, hus⟩
    exact ⟨us, mapM_ofElement_eq_ok.2 hus, rfl⟩

theorem ofValue_singleton_eq_ok {v : Value} {s : UnitSet} :
    ofValue (.array [v]) = .ok s ↔ ∃ u, s = .ordered [u] ∧ u.WrittenAs v := by
  rw [ofValue_array_eq_ok]
  constructor
  · rintro ⟨us, rfl, hus⟩
    cases hus with
    | cons hu hrest =>
      cases hrest
      exact ⟨_, rfl, hu⟩
  · rintro ⟨u, rfl, hu⟩
    exact ⟨[u], rfl, .cons hu .nil⟩

end UnitSet

namespace ScaleUnit

/-- A value that is a unit in a list is the same unit alone.  The other way round this holds of
words and objects.  What both read is a word, or an object in which each field has the value of the
last member of its name, or its default; alone, the values of the first fields may also be listed
without their names. -/
theorem alone_and_in_list (v : Value) :
    (∀ s, UnitSet.ofValue (.array [v]) = .ok s →
      ∃ u, s = .ordered [u] ∧ ofValue v = .ok u) ∧
    (∀ u, v.kind = .string ∨ v.kind = .object → ofValue v = .ok u →
      UnitSet.ofValue (.array [v]) = .ok (.ordered [u])) ∧
    ∀ u : ScaleUnit,
      (UnitSet.ofValue (.array [v]) = .ok (.ordered [u]) ↔ u.WrittenAs v) ∧
      (ofValue v = .ok u ↔ u.WrittenAs v ∨ u.ListedAs v) := by
  have hsingleton (u : ScaleUnit) :
      UnitSet.ofValue (.array [v]) = .ok (.ordered [u]) ↔ u.WrittenAs v := by
    rw [UnitSet.ofValue_singleton_eq_ok]
    simp
  refine ⟨fun s hs => ?_, fun u hkind hu => ?_, fun u => ⟨hsingleton u, ofValue_eq_ok⟩⟩
  · obtain ⟨u, rfl, hu⟩ := UnitSet.ofValue_singleton_eq_ok.1 hs
    exact ⟨u, rfl, ofValue_eq_ok.2 (.inl hu)⟩
  · rcases ofValue_eq_ok.1 hu with hwritten | hlisted
    · exact (hsingleton u).2 hwritten
    · rw [hlisted.kind] at hkind
      rcases hkind with h | h <;> cases h

/-- A unit with an absent plural and a member that is no field.  The same unit as a list of values
is one alone, but not in a list. -/
theorem hundred_alone_and_in_list :
    let ms : List (String × Value) :=
      [("andException", .boolean true), ("plural", .null), ("remark", .array [.boolean false]),
        ("singular", .string "hundred"), ("useFewEnding", .boolean false)]
    let items : List Value := [.string "hundred", .null]
    let unit : ScaleUnit := .inflected { singular := "hundred", keepsAnd := true }
    (UnitSet.ofValue (.array [.object ms]) = .ok (.ordered [unit]) ∧
      ofValue (.object ms) = .ok unit ∧ unit.WrittenAs (.object ms)) ∧
    (ofValue (.array items) = .ok (.inflected { singular := "hundred" }) ∧
      ∀ u : ScaleUnit, ¬ u.WrittenAs (.array items)) := by
  intro ms items unit
  have halone : ofValue (.object ms) = .ok unit := by decide +kernel
  obtain ⟨hfrom, hto, hboth⟩ := alone_and_in_list (.object ms)
  have hlist := hto unit (.inr rfl) halone
  obtain ⟨u, hu, hu'⟩ := hfrom _ hlist
  cases hu
  refine ⟨⟨hlist, hu', (hboth unit).1.1 hlist⟩, by decide +kernel, fun u hwritten => ?_⟩
  rcases hwritten.kind with h | h <;> cases h

end ScaleUnit
end NumberWords
