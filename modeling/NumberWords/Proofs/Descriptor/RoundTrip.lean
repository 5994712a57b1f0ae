import NumberWords.Proofs.Descriptor.Units
import NumberWords.Proofs.Fallible

/-!
Descriptors read back from their texts.

A field is read by its own reader (`reads_field`), so reading the members of a printed descriptor
fills it field by field: what has been read at any point is the descriptor itself in the fields seen
so far, and the default elsewhere (`Descriptor.known`).  The fields that are left out of the text
are those that have their defaults.
-/

namespace NumberWords

open Json (Value Reads Takes Run)

/-! ## Nesting -/

namespace Json

variable (name : String) (depth : Nat)

theorem fits_flagField (b : Bool) : ∀ m ∈ flagField name b, m.2.Fits depth := by
  intro m hm
  obtain ⟨-, rfl⟩ := mem_flagField.1 hm
  exact .boolean depth true

theorem fits_optionField (s : Option String) : ∀ m ∈ optionField name s, m.2.Fits depth := by
  intro m hm
  obtain ⟨w, -, rfl⟩ := mem_optionField.1 hm
  exact .string depth w

theorem fits_countsField (counts : List UInt64) :
    ∀ m ∈ countsField name counts, m.2.Fits (depth + 1) := by
  intro m hm
  obtain ⟨-, rfl⟩ := mem_countsField.1 hm
  refine .array fun v hv => ?_
  obtain ⟨c, -, rfl⟩ := List.mem_map.1 hv
  exact .natural depth c

end Json

open Json (fits_flagField fits_optionField fits_countsField)

theorem InflectedUnit.fits (u : InflectedUnit) (depth : Nat) : u.toValue.Fits (depth + 2) := by
  refine .object ?_
  simp only [List.cons_append, List.forall_mem_cons, List.forall_mem_append, and_assoc]
  exact ⟨.string _ _, fits_optionField _ _ _, fits_optionField _ _ _, fits_optionField _ _ _,
    fits_flagField _ _ _, fits_flagField _ _ _, fits_countsField _ _ _, fits_countsField _ _ _,
    fits_flagField _ _ _, fits_flagField _ _ _, fits_flagField _ _ _, fits_countsField _ _ _,
    fits_flagField _ _ _, fits_optionField _ _ _, fits_flagField _ _ _⟩

theorem ScaleUnit.fits (u : ScaleUnit) (depth : Nat) : u.toValue.Fits (depth + 2) := by
  cases u with
  | plain w => exact .string _ w
  | inflected u => exact u.fits depth

theorem UnitSet.fits (s : UnitSet) (depth : Nat) : s.toValue.Fits (depth + 3) := by
  cases s with
  | ordered units =>
    refine .array fun v hv => ?_
    obtain ⟨u, -, rfl⟩ := List.mem_map.1 hv
    exact u.fits depth
  | byExponent words =>
    refine .object fun m hm => ?_
    obtain ⟨e, -, rfl⟩ := List.mem_map.1 hm
    exact .string _ _

theorem Lexicon.fits (l : Lexicon) (depth : Nat) : l.toValue.Fits (depth + 1) := by
  refine .object fun m hm => ?_
  obtain ⟨e, -, rfl⟩ := List.mem_map.1 hm
  exact .string _ _

theorem fits_alternatives (m : SortedMap String Lexicon) (depth : Nat) :
    (Value.object (m.entries.map fun (name, l) => (name, Lexicon.toValue l))).Fits (depth + 2) := by
  refine .object fun e he => ?_
  obtain ⟨e, -, rfl⟩ := List.mem_map.1 he
  exact Lexicon.fits _ _

namespace Descriptor

variable {d : Descriptor} {names : List String} {m : String × Value}

theorem toValue_eq (d : Descriptor) : d.toValue = .object d.toValue.members := rfl

theorem fits (d : Descriptor) (depth : Nat) : d.toValue.Fits (depth + 4) := by
  have hmap (p : Bool) {m : String × Value} (h : m.2.Fits (depth + 3)) :
      ∀ m' ∈ if p then [] else [m], m'.2.Fits (depth + 3) := by
    cases p with
    | true => exact List.forall_mem_nil _
    | false => exact List.forall_mem_singleton.2 h
  refine .object ?_
  simp only [List.forall_mem_append, List.forall_mem_cons, List.not_mem_nil, false_implies,
    implies_true, and_true, and_assoc]
  exact ⟨fits_flagField _ _ _, .string _ _, .string _ _, fits_optionField _ _ _, d.base.fits _,
    hmap _ (fits_alternatives _ _), hmap _ (d.exceptions.fits _), d.units.fits _,
    fits_flagField _ _ _, fits_flagField _ _ _⟩

/-! ## Fields -/

theorem reads_setWith {α : Type} {read : Json.Reader α} {set : Descriptor → α → Descriptor}
    {v : Value} {a : α} {d' : Descriptor} (hread : Reads read v a) (hset : set d a = d') :
    Reads (setWith read set d) v d' := by
  intro depth cs rest hcs hrest
  simp [setWith, hread depth cs rest hcs hrest, hset, bind, Except.bind]

theorem reads_readLexicon (l : Lexicon) : Reads readLexicon l.toValue l := by
  refine Json.reads_readMap_entries l fun l' e _ depth rest hrest => ?_
  simp only [Json.memberText, Json.escape_toString, List.append_assoc, List.cons_append,
    Json.naturalName_toDigits, Json.colon_cons, (Json.reads_readString e.2).after_blank depth hrest,
    bind, Except.bind]

theorem reads_readAlternatives (m : SortedMap String Lexicon) :
    Reads readAlternatives (.object (m.entries.map fun (name, l) => (name, Lexicon.toValue l)))
      m := by
  refine Json.reads_readMap_entries m fun m' e _ depth rest hrest => ?_
  simp only [Json.memberText, List.append_assoc, List.cons_append, Json.string_escape,
    Json.colon_cons, (reads_readLexicon e.2).after_blank depth hrest, bind, Except.bind]

theorem reads_readUnits (s : UnitSet) : Reads readUnits s.toValue s := by
  intro depth cs rest hcs hrest
  have hvalue := Json.reads_value (s.fits 123) depth cs rest hcs hrest
  simp [readUnits, Json.deepestNesting, hvalue, s.ofValue_normal, Except.mapError, bind,
    Except.bind]

def known (d : Descriptor) (names : List String) : Descriptor :=
  { longScale := if "useLongScale" ∈ names then d.longScale else false
    tensSeparator := if "baseSeparator" ∈ names then d.tensSeparator else ""
    tailSeparator := if "unitSeparator" ∈ names then d.tailSeparator else ""
    chunkSeparator := if "allSeparator" ∈ names then d.chunkSeparator else none
    base := if "base" ∈ names then d.base else .empty
    alternatives := if "alternativeBase" ∈ names then d.alternatives else .empty
    exceptions := if "unitExceptions" ∈ names then d.exceptions else .empty
    units := if "units" ∈ names then d.units else .ordered []
    keepsAnd := if "andException" ∈ names then d.keepsAnd else false
    joinsTail := if "andWhenTrailing" ∈ names then d.joinsTail else false }

/-- Each member of a printed descriptor is one of the fields, with the value of its own type. -/
theorem reads_field (hm : m ∈ d.toValue.members) :
    ∃ read, fields.lookup m.1 = some read
      ∧ ∀ names, Reads (read (d.known names)) m.2 (d.known (m.1 :: names)) := by
  simp only [toValue, Value.members, List.mem_append, List.mem_cons, List.mem_ite_nil_left,
    List.not_mem_nil, or_false, or_assoc, Json.mem_flagField, Json.mem_optionField] at hm
  rcases hm with ⟨hb, rfl⟩ | rfl | rfl | ⟨w, hw, rfl⟩ | rfl | ⟨-, rfl⟩ | ⟨-, rfl⟩ | rfl | ⟨hb, rfl⟩
    | ⟨hb, rfl⟩
  · exact ⟨_, rfl, fun names => reads_setWith (Json.reads_readBoolean true) (by simp [known, hb])⟩
  · exact ⟨_, rfl, fun names => reads_setWith (Json.reads_readString _) (by simp [known])⟩
  · exact ⟨_, rfl, fun names => reads_setWith (Json.reads_readString _) (by simp [known])⟩
  · exact ⟨_, rfl, fun names => reads_setWith (Json.reads_readOptionalString w)
      (by simp [known, hw])⟩
  · exact ⟨_, rfl, fun names => reads_setWith (reads_readLexicon _) (by simp [known])⟩
  · exact ⟨_, rfl, fun names => reads_setWith (reads_readAlternatives _) (by simp [known])⟩
  · exact ⟨_, rfl, fun names => reads_setWith (reads_readLexicon _) (by simp [known])⟩
  · exact ⟨_, rfl, fun names => reads_setWith (reads_readUnits _) (by simp [known])⟩
  · exact ⟨_, rfl, fun names => reads_setWith (Json.reads_readBoolean true) (by simp [known, hb])⟩
  · exact ⟨_, rfl, fun names => reads_setWith (Json.reads_readBoolean true) (by simp [known, hb])⟩

theorem known_eq (h : ∀ name ∈ d.toValue.members.map (·.1), name ∈ names) : d.known names = d := by
  cases d with
  | mk =>
    simp only [known, Descriptor.mk.injEq]
    -- A field that no member names has been left out, so it has its default.
    refine ⟨?_, ?_, ?_, ?_, ?_, ?_, ?_, ?_, ?_, ?_⟩
    all_goals
      refine ite_default fun hne => h _ ?_
      simp [toValue, Value.members, hne]

theorem names_sublist (d : Descriptor) :
    (d.toValue.members.map (·.1)).Sublist (fields.map (·.1)) := by
  have hflag (name : String) (b : Bool) :
      ((Json.flagField name b).map (·.1)).Sublist [name] := by
    cases b <;> simp [Json.flagField]
  have hoption (name : String) (s : Option String) :
      ((Json.optionField name s).map (·.1)).Sublist [name] := by
    cases s <;> simp [Json.optionField]
  have hmap (p : Bool) (m : String × Value) :
      ((if p then [] else [m]).map (·.1)).Sublist [m.1] := by
    cases p <;> simp
  simp only [toValue, Value.members, List.map_append]
  exact ((((((((hflag _ _).append (.refl _)).append (hoption _ _)).append (.refl _)).append
    (hmap _ _)).append (hmap _ _)).append (.refl _)).append (hflag _ _)).append (hflag _ _)

theorem names_nodup (d : Descriptor) : (d.toValue.members.map (·.1)).Nodup :=
  d.names_sublist.nodup (by decide)

/-- Members whose names are new are read one after another. -/
theorem run_readMember {ms : List (String × Value)} (hms : ∀ m ∈ ms, m ∈ d.toValue.members)
    (hnodup : (ms.map (·.1)).Nodup) (hnew : ∀ name ∈ ms.map (·.1), name ∉ names) :
    Run (Takes readMember) { seen := names, descriptor := d.known names } ms
      { seen := (ms.map (·.1)).reverse ++ names
        descriptor := d.known ((ms.map (·.1)).reverse ++ names) } := by
  -- The draft after each member is the descriptor in the names seen so far.
  induction ms generalizing names with
  | nil => exact .nil _
  | cons m ms ih =>
    obtain ⟨read, hlookup, hread⟩ := reads_field (hms m List.mem_cons_self)
    obtain ⟨hm, hnodup⟩ := List.nodup_cons.1 hnodup
    obtain ⟨hseen, hnew⟩ := List.forall_mem_cons.1 hnew
    have hnew : ∀ name ∈ ms.map (·.1), name ∉ m.1 :: names := fun name hn =>
      List.not_mem_cons_of_ne_of_not_mem (ne_of_mem_of_not_mem hn hm) (hnew name hn)
    have hrun := ih (fun m' hm' => hms m' (List.mem_cons_of_mem _ hm')) hnodup hnew
    rw [List.map_cons, List.reverse_cons, List.append_assoc]
    refine .cons (fun depth rest hrest => ?_) hrun
    simp [Json.memberText, readMember, Json.string_escape, hlookup, hseen, Json.colon_cons,
      (hread names).after_blank depth hrest, bind, Except.bind]

theorem Draft.finish_eq {draft : Draft} (h : ∀ name ∈ required, name ∈ draft.seen) :
    draft.finish = .ok draft.descriptor := by
  have hnone : (required.find? fun name => !draft.seen.contains name) = none :=
    List.find?_eq_none.2 fun name hn => by simp [h name hn]
  rw [finish, hnone]

theorem reads_reader (d : Descriptor) : Reads reader d.toValue d := by
  intro depth cs rest hcs _
  have hrun : Run (Takes readMember) { seen := [], descriptor := blank } d.toValue.members
      { seen := (d.toValue.members.map (·.1)).reverse ++ []
        descriptor := d.known ((d.toValue.members.map (·.1)).reverse ++ []) } :=
    run_readMember (fun _ => id) d.names_nodup fun _ _ => List.not_mem_nil
  have hall : ∀ name ∈ d.toValue.members.map (·.1),
      name ∈ (d.toValue.members.map (·.1)).reverse ++ [] :=
    fun name hn => List.mem_append_left _ (List.mem_reverse.2 hn)
  have hrequired : ∀ name ∈ required, name ∈ d.toValue.members.map (·.1) := by
    simp [required, toValue, Value.members]
  obtain ⟨inside, hinside, hmembers⟩ := Json.members_object hrun hcs
  simp only [reader, hinside, hmembers, bind, Except.bind]
  rw [Draft.finish_eq fun name hn => hall name (hrequired name hn), known_eq hall]

/-! ## Texts -/

theorem toList_encode (d : Descriptor) : d.encode.toList = d.toValue.textAt 0 ++ [] := by
  rw [List.append_nil]
  exact String.toList_ofList

theorem decode_encode (d : Descriptor) : decode d.encode = .ok d := by
  have hread := d.reads_reader 0 d.encode.toList [] (by rw [toList_encode]) Json.ends_nil
  rw [decode, hread]
  rfl

theorem parse_encode (d : Descriptor) : Json.parse d.encode = .ok d.toValue.normal := by
  have hread := Json.reads_value (d.fits 123) 0 d.encode.toList [] (by rw [toList_encode])
    Json.ends_nil
  rw [Json.parse, Json.deepestNesting, hread]
  rfl

/-- The units are found among the members of the value that is read. -/
theorem member?_units (d : Descriptor) :
    d.toValue.normal.member? "units" = some d.units.toValue.normal := by
  have hmem : ("units", d.units.toValue) ∈ d.toValue.members := by
    simp [toValue, Value.members]
  rw [d.toValue_eq]
  exact Json.member?_normal d.names_nodup hmem

theorem load_encode (hvalid : d.validate = .ok ()) : load d.encode = .ok d := by
  rw [load, parse_encode, decode_encode]
  simp [member?_units, d.units.ofValue_normal, hvalid, Except.mapError, bind, Except.bind]

theorem validate_of_load {text : String} (h : load text = .ok d) : d.validate = .ok () := by
  obtain ⟨v, -, h⟩ := Fallible.bind_eq_ok.1 h
  obtain ⟨s, -, h⟩ := Fallible.bind_eq_ok.1 h
  obtain ⟨d', -, h⟩ := Fallible.bind_eq_ok.1 h
  obtain ⟨⟨⟩, hvalid, h⟩ := Fallible.bind_eq_ok.1 h
  cases h
  exact hvalid

/-- A descriptor comes back from its text, and what comes out of any text is written as a text that
stays the same when it is read and written again. -/
theorem encode_round_trip :
    (∀ d : Descriptor, decode d.encode = .ok d)
      ∧ (∀ d : Descriptor, d.validate = .ok () → load d.encode = .ok d)
      ∧ ∀ (text : String) (d : Descriptor), load text = .ok d →
        load d.encode = .ok d ∧ encode <$> load d.encode = .ok d.encode := by
  refine ⟨decode_encode, fun d => load_encode, fun text d h => ?_⟩
  have hload := load_encode (validate_of_load h)
  exact ⟨hload, by rw [hload]; rfl⟩

/-- A separator that is there and empty, and exponents that sort in another way as texts. -/
def sparse : Descriptor :=
  { chunkSeparator := some ""
    base := { entries := [(1, "one")] }
    units := .byExponent { entries := [(2, "hundred"), (10, "myriad")] } }

/-- The same descriptor written in another way. -/
def sparseText : String :=
  "\x7b\"units\": \x7b\"10\": \"myriad\", \"+2\": \"hundred\"\x7d, \"remark\": [1.5, null],"
    ++ " \"allSeparator\": \"\", \"base\": \x7b\"1\": \"uno\", \"1\": \"one\"\x7d\x7d"

theorem sparse_round_trip :
    decode sparse.encode = .ok sparse
      ∧ (sparse.validate = .ok () ∧ load sparse.encode = .ok sparse)
      ∧ (load sparseText = .ok sparse ∧ sparse.encode ≠ sparseText
        ∧ encode <$> load sparse.encode = .ok sparse.encode) := by
  have hvalid : sparse.validate = .ok () := by decide
  have hload : load sparseText = .ok sparse := by decide +kernel
  have hne : sparse.encode ≠ sparseText := by decide +kernel
  obtain ⟨hdecode, hvalidated, htext⟩ := encode_round_trip
  exact ⟨hdecode sparse, ⟨hvalid, hvalidated sparse hvalid⟩, hload, hne,
    (htext sparseText sparse hload).2⟩

end Descriptor
end NumberWords
