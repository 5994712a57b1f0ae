import NumberWords.Descriptor.Decode
import NumberWords.Descriptor.Encode
import NumberWords.Proofs.Json.Reader

/-!
Units read back from their JSON values.

By then the members of an object stand in order of their names and not as they were written.  A unit
does not mind: after any of its members have been read it is the unit itself in the fields they
name, and the default elsewhere (`InflectedUnit.known`).
-/

namespace NumberWords

open Json (Value)

/-- A choice of two equal things, unless its condition holds. -/
theorem ite_default {α : Type} {p : Prop} [Decidable p] {a default : α} (h : a ≠ default → p) :
    (if p then a else default) = a := by
  by_cases hp : p
  · exact if_pos hp
  · rw [if_neg hp, Classical.not_not.1 fun hne => hp (h (Ne.symm hne))]

namespace Json

variable {name : String} {m : String × Value}

@[simp] theorem mem_flagField {b : Bool} :
    m ∈ flagField name b ↔ b = true ∧ m = (name, .boolean true) := by
  cases b <;> simp [flagField]

@[simp] theorem mem_optionField {s : Option String} :
    m ∈ optionField name s ↔ ∃ w, s = some w ∧ m = (name, .string w) := by
  cases s <;> simp [optionField]

@[simp] theorem mem_countsField {counts : List UInt64} :
    m ∈ countsField name counts
      ↔ counts ≠ [] ∧ m = (name, .array (counts.map fun c => .number (.natural c))) := by
  cases counts <;> simp [countsField]

@[simp] theorem mem_names_flagField {n : String} {b : Bool} :
    n ∈ (flagField name b).map (·.1) ↔ b = true ∧ n = name := by
  cases b <;> simp [flagField]

@[simp] theorem mem_names_optionField {n : String} {s : Option String} :
    n ∈ (optionField name s).map (·.1) ↔ s ≠ none ∧ n = name := by
  cases s <;> simp [optionField]

@[simp] theorem mem_names_countsField {n : String} {counts : List UInt64} :
    n ∈ (countsField name counts).map (·.1) ↔ counts ≠ [] ∧ n = name := by
  cases counts <;> simp [countsField]

theorem asCounts_normal (counts : List UInt64) :
    (Value.array (counts.map fun c => .number (.natural c))).normal.asCounts = .ok counts := by
  have hpure := List.mapM_pure (m := Except FieldFault) (l := counts) (f := fun c => c)
  rw [List.map_id'] at hpure
  rw [Value.normal, normalItems_eq_map, List.map_map, Value.asCounts, List.mapM_map]
  exact hpure

/-- Setting a field to a list of counts. -/
theorem bind_asCounts {α : Type} (counts : List UInt64) {set : List UInt64 → α} {a : α}
    (h : set counts = a) :
    (do .ok (set (← (Value.array (counts.map fun c => .number (.natural c))).normal.asCounts)))
      = Except.ok a := by
  rw [asCounts_normal]
  exact congrArg Except.ok h

end Json

namespace InflectedUnit

variable {u : InflectedUnit} {names : List String} {m : String × Value}

def known (u : InflectedUnit) (names : List String) : InflectedUnit :=
  { singular := if "singular" ∈ names then u.singular else ""
    plural := if "plural" ∈ names then u.plural else none
    few := if "few" ∈ names then u.few else none
    dual := if "dual" ∈ names then u.dual else none
    singularEnding := if "useSingularEnding" ∈ names then u.singularEnding else false
    fewEnding := if "useFewEnding" ∈ names then u.fewEnding else false
    endingExceptions := if "avoidEndingRules" ∈ names then u.endingExceptions else []
    bareCounts := if "avoidPrefixException" ∈ names then u.bareCounts else []
    singularBeforeTail := if "avoidInNumberPlural" ∈ names then u.singularBeforeTail else false
    pluralUpToTen := if "restrictedPlural" ∈ names then u.pluralUpToTen else false
    compound := if "useBaseInstead" ∈ names then u.compound else false
    compoundExceptions := if "useBaseException" ∈ names then u.compoundExceptions else []
    exceptionsNeedTail :=
      if "useBaseExceptionWhenNoTrailingNumbers" ∈ names then u.exceptionsNeedTail else false
    countBase := if "useAlternativeBase" ∈ names then u.countBase else none
    keepsAnd := if "andException" ∈ names then u.keepsAnd else false }

/-- Each member of a printed unit is one of the fields, with a value of its own type. -/
theorem setField_known (hm : m ∈ u.toValue.members) :
    (u.known names).setField m.1 m.2.normal = .ok (u.known (m.1 :: names)) := by
  simp only [toValue, Value.members, List.cons_append, List.mem_cons, List.mem_append, or_assoc,
    Json.mem_flagField, Json.mem_optionField, Json.mem_countsField] at hm
  rcases hm with rfl | ⟨w, hw, rfl⟩ | ⟨w, hw, rfl⟩ | ⟨w, hw, rfl⟩ | ⟨hb, rfl⟩ | ⟨hb, rfl⟩ | ⟨-, rfl⟩
    | ⟨-, rfl⟩ | ⟨hb, rfl⟩ | ⟨hb, rfl⟩ | ⟨hb, rfl⟩ | ⟨-, rfl⟩ | ⟨hb, rfl⟩ | ⟨w, hw, rfl⟩ | ⟨hb, rfl⟩
  · exact congrArg Except.ok (by simp [known])
  · exact congrArg Except.ok (by simp [known, hw])
  · exact congrArg Except.ok (by simp [known, hw])
  · exact congrArg Except.ok (by simp [known, hw])
  · exact congrArg Except.ok (by simp [known, hb])
  · exact congrArg Except.ok (by simp [known, hb])
  · exact Json.bind_asCounts _ (by simp [known])
  · exact Json.bind_asCounts _ (by simp [known])
  · exact congrArg Except.ok (by simp [known, hb])
  · exact congrArg Except.ok (by simp [known, hb])
  · exact congrArg Except.ok (by simp [known, hb])
  · exact Json.bind_asCounts _ (by simp [known])
  · exact congrArg Except.ok (by simp [known, hb])
  · exact congrArg Except.ok (by simp [known, hw])
  · exact congrArg Except.ok (by simp [known, hb])

theorem known_eq (h : ∀ name ∈ u.toValue.members.map (·.1), name ∈ names) : u.known names = u := by
  cases u with
  | mk =>
    simp only [known, InflectedUnit.mk.injEq]
    -- A field that no member names has been left out, so it has its default.
    refine ⟨?_, ?_, ?_, ?_, ?_, ?_, ?_, ?_, ?_, ?_, ?_, ?_, ?_, ?_, ?_⟩
    all_goals
      refine ite_default fun hne => h _ ?_
      simp [toValue, Value.members, hne]

/-- Members are read one after another, in whatever order they stand. -/
theorem foldlM_setField {es : List (String × Value)}
    (hes : ∀ e ∈ es, ∃ m ∈ u.toValue.members, e = (m.1, m.2.normal)) (names : List String) :
    es.foldlM (fun u m => u.setField m.1 m.2) (u.known names)
      = .ok (u.known ((es.map (·.1)).reverse ++ names)) := by
  induction es generalizing names with
  | nil => rfl
  | cons e es ih =>
    obtain ⟨m, hm, rfl⟩ := hes e List.mem_cons_self
    have hlater := ih (fun e he => hes e (List.mem_cons_of_mem _ he)) (m.1 :: names)
    rw [List.foldlM_cons, setField_known hm]
    simpa [bind, Except.bind] using hlater

theorem toValue_eq (u : InflectedUnit) : u.toValue = .object u.toValue.members := rfl

theorem ofMembers_normal (u : InflectedUnit) : ofMembers u.toValue.normal.members = .ok u := by
  have hnames : ∀ name ∈ u.toValue.members.map (·.1), name ∈ u.toValue.normal.members.map (·.1) :=
    fun name => Json.mem_names_normal.2
  have hsingular : u.toValue.normal.members.any (·.1 == "singular") = true := by
    obtain ⟨e, he, h⟩ := List.mem_map.1 (hnames "singular" List.mem_cons_self)
    exact List.any_eq_true.2 ⟨e, he, by simp [h]⟩
  have hall : u.known ((u.toValue.normal.members.map (·.1)).reverse ++ []) = u :=
    known_eq fun name hn => List.mem_append_left _ (List.mem_reverse.2 (hnames name hn))
  have hread := foldlM_setField (u := u) (fun e => Json.mem_members_normal) []
  rw [← toValue_eq, hall] at hread
  have hstart : ({ singular := "" } : InflectedUnit) = u.known [] := rfl
  rw [ofMembers, hstart, hread]
  simp only [bind, Except.bind, hsingular, if_true]

end InflectedUnit

namespace ScaleUnit

theorem ofElement_normal (index : Nat) (u : ScaleUnit) :
    ofElement index u.toValue.normal = .ok u := by
  cases u with
  | plain w => rfl
  | inflected u =>
    rw [toValue, u.toValue_eq, Json.normal_object, ofElement, ← u.toValue_eq, u.ofMembers_normal]
    rfl

end ScaleUnit

/-- The digits of a number are a numeral of it. -/
theorem Numeral.magnitude?_toDigits {n : Nat} (hn : n < Numeral.magnitudeBound) :
    Numeral.magnitude? (Nat.toDigits 10 n) = some n := by
  have hall : (Nat.toDigits 10 n).all Char.isDigit = true :=
    List.all_eq_true.2 (Json.all_isDigit_toDigits n)
  have hnatural : natural? (Nat.toDigits 10 n) = some n := by
    simp [natural?, hall, Nat.toDigits_ne_nil]
  obtain ⟨d, ds, hd, hdigit⟩ := Json.exists_toDigits n
  have hplus : d ≠ '+' := by rintro rfl; cases hdigit
  rw [hd] at hnatural ⊢
  simp [magnitude?, hplus, hnatural, hn]

namespace UnitSet

theorem mapM_ofElement (units : List ScaleUnit) (start : Nat) :
    ((units.map fun u => u.toValue.normal).zipIdx start).mapM
      (fun (v, i) => ScaleUnit.ofElement i v) = .ok units := by
  induction units generalizing start with
  | nil => rfl
  | cons u units ih =>
    simp [List.mapM_cons, ScaleUnit.ofElement_normal, ih, bind, Except.bind, pure, Except.pure]

theorem exponent?_toString (e : UInt32) : exponent? (toString e.toNat) = some e := by
  have hlist : (toString e.toNat).toList = Nat.toDigits 10 e.toNat := Nat.toList_repr
  have hbound : e.toNat < UInt32.size := e.toNat_lt
  rw [exponent?, hlist, Numeral.magnitude?_toDigits (Nat.lt_trans hbound (by decide))]
  simp [Option.filter, hbound]

theorem toString_toNat_injective {e e' : UInt32} (h : toString e.toNat = toString e'.toNat) :
    e = e' := by
  have heq := exponent?_toString e
  rw [h, exponent?_toString e'] at heq
  exact (Option.some.inj heq).symm

theorem bindWord_string (words : SortedMap UInt32 String) (e : UInt32) (w : String) :
    bindWord words (toString e.toNat) (.string w) = .ok (words.insert e w) := by
  simp only [bindWord, exponent?_toString]

def wordMember (e : UInt32 × String) : String × Value := (toString e.1.toNat, .string e.2)

theorem toValue_byExponent (words : SortedMap UInt32 String) :
    (UnitSet.byExponent words).toValue = .object (words.entries.map wordMember) := rfl

theorem foldlM_bindWord (l : List (UInt32 × String)) (words : SortedMap UInt32 String) :
    (l.map wordMember).foldlM (fun words m => bindWord words m.1 m.2) words
      = .ok (l.foldl (fun words e => words.insert e.1 e.2) words) := by
  induction l generalizing words with
  | nil => rfl
  | cons e l ih =>
    rw [List.map_cons, List.foldlM_cons, wordMember, bindWord_string]
    exact ih _

theorem exists_map_wordMember {es : List (String × Value)} {l : List (UInt32 × String)}
    (h : ∀ m ∈ es, ∃ e ∈ l, m = wordMember e) :
    ∃ l' : List (UInt32 × String), es = l'.map wordMember ∧ ∀ e ∈ l', e ∈ l := by
  induction es with
  | nil => exact ⟨[], rfl, List.forall_mem_nil _⟩
  | cons m es ih =>
    obtain ⟨e, he, rfl⟩ := h m List.mem_cons_self
    obtain ⟨l', rfl, hl'⟩ := ih fun m hm => h m (List.mem_cons_of_mem _ hm)
    exact ⟨e :: l', rfl, List.forall_mem_cons.2 ⟨he, hl'⟩⟩

/-- The words come in the order of their exponents as texts, and are put in order again. -/
theorem foldlM_bindWord_normal (words : SortedMap UInt32 String) :
    (Value.object (words.entries.map wordMember)).normal.members.foldlM
      (fun words m => bindWord words m.1 m.2) .empty = .ok words := by
  have hword : ∀ m ∈ (Value.object (words.entries.map wordMember)).normal.members,
      ∃ e ∈ words.entries, m = wordMember e := by
    intro m hm
    obtain ⟨m', hm', rfl⟩ := Json.mem_members_normal hm
    obtain ⟨e, he, rfl⟩ := List.mem_map.1 hm'
    exact ⟨e, he, rfl⟩
  obtain ⟨l, hl, hmem⟩ := exists_map_wordMember hword
  have hkeys : ∀ k ∈ words.keys, k ∈ l.map (·.1) := by
    intro k hk
    obtain ⟨e, he, rfl⟩ := List.mem_map.1 hk
    have hname : toString e.1.toNat ∈ (words.entries.map wordMember).map (·.1) :=
      List.mem_map_of_mem (List.mem_map_of_mem he)
    rw [← Json.mem_names_normal, hl, List.map_map] at hname
    obtain ⟨e', he', heq⟩ := List.mem_map.1 hname
    exact List.mem_map.2 ⟨e', he', toString_toNat_injective heq⟩
  rw [hl, foldlM_bindWord]
  exact congrArg Except.ok (SortedMap.ofList_eq hmem hkeys)

theorem ofValue_normal (s : UnitSet) : ofValue s.toValue.normal = .ok s := by
  cases s with
  | ordered units =>
    have hread := mapM_ofElement units 0
    simp [toValue, Value.normal, ofValue, Function.comp_def, hread, Functor.map, Except.map]
  | byExponent words =>
    rw [toValue_byExponent, Json.normal_object, ofValue, foldlM_bindWord_normal]
    rfl

end UnitSet
end NumberWords
