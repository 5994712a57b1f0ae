import NumberWords.Descriptor.Validity
import NumberWords.Json.Reader

/-!
Descriptors from JSON.

A unit comes from a JSON value.  A descriptor comes from a text: its fields are read in the order in
which they stand, the first wrong one is the fault, and the collection of units among them is read
as a value first.  A descriptor that is loaded has passed one more test before and one after: its
units are a collection of units whatever else is wrong, and it is valid.
-/

namespace NumberWords

open Json (Value Reader)

namespace Json
namespace Value

def asString : Value → Except FieldFault String
  | .string s => .ok s
  | v => .error (.mismatch v.found .string)

def asBoolean : Value → Except FieldFault Bool
  | .boolean b => .ok b
  | v => .error (.mismatch v.found .boolean)

def asOptionalString : Value → Except FieldFault (Option String)
  | .null => .ok none
  | v => some <$> v.asString

def asCount : Value → Except FieldFault UInt64
  | .number (.natural n) => .ok n
  | v => .error (.mismatch v.found .natural)

def asCounts : Value → Except FieldFault (List UInt64)
  | .array items => items.mapM asCount
  | v => .error (.mismatch v.found .list)

end Value
end Json

/-! ## Units -/

namespace InflectedUnit

/-- The fields of a unit in order, and how a value sets each. -/
def fields : List (String × (Value → InflectedUnit → Except FieldFault InflectedUnit)) :=
  [("singular", fun v u => do .ok { u with singular := ← v.asString }),
    ("plural", fun v u => do .ok { u with plural := ← v.asOptionalString }),
    ("few", fun v u => do .ok { u with few := ← v.asOptionalString }),
    ("dual", fun v u => do .ok { u with dual := ← v.asOptionalString }),
    ("useSingularEnding", fun v u => do .ok { u with singularEnding := ← v.asBoolean }),
    ("useFewEnding", fun v u => do .ok { u with fewEnding := ← v.asBoolean }),
    ("avoidEndingRules", fun v u => do .ok { u with endingExceptions := ← v.asCounts }),
    ("avoidPrefixException", fun v u => do .ok { u with bareCounts := ← v.asCounts }),
    ("avoidInNumberPlural", fun v u => do .ok { u with singularBeforeTail := ← v.asBoolean }),
    ("restrictedPlural", fun v u => do .ok { u with pluralUpToTen := ← v.asBoolean }),
    ("useBaseInstead", fun v u => do .ok { u with compound := ← v.asBoolean }),
    ("useBaseException", fun v u => do .ok { u with compoundExceptions := ← v.asCounts }),
    ("useBaseExceptionWhenNoTrailingNumbers",
      fun v u => do .ok { u with exceptionsNeedTail := ← v.asBoolean }),
    ("useAlternativeBase", fun v u => do .ok { u with countBase := ← v.asOptionalString }),
    ("andException", fun v u => do .ok { u with keepsAnd := ← v.asBoolean })]

/-- Set one field.  An unknown name sets nothing. -/
def setField (u : InflectedUnit) (name : String) (v : Value) : Except FieldFault InflectedUnit :=
  match fields.lookup name with
  | some set => set v u
  | none => .ok u

/-- The unit of an object.  Only the singular must be there. -/
def ofMembers (members : List (String × Value)) : Except FieldFault InflectedUnit := do
  let u ← members.foldlM (fun u m => u.setField m.1 m.2) { singular := "" }
  if members.any (·.1 == "singular") then .ok u else .error (.missing "singular")

/-- The unit of a list of field values in order. -/
def ofItems? (items : List Value) : Option InflectedUnit :=
  let set (u : InflectedUnit) (m : (String × (Value → InflectedUnit → _)) × Value) :
      Except FieldFault InflectedUnit := m.1.2 m.2 u
  if items.isEmpty || fields.length < items.length then none
  else ((fields.zip items).foldlM set { singular := "" }).toOption

end InflectedUnit

namespace ScaleUnit

/-- The unit that a value alone stands for: a word, an object or a list of fields. -/
def ofValue (v : Value) : Except ShapeFault ScaleUnit :=
  let unit? : Option InflectedUnit := match v with
    | .object members => (InflectedUnit.ofMembers members).toOption
    | .array items => InflectedUnit.ofItems? items
    | _ => none
  match v with
  | .string w => .ok (.plain w)
  | _ => (unit?.map .inflected).elim (.error .noVariant) .ok

def ofElement (index : Nat) : Value → Except UnitsFault ScaleUnit
  | .string w => .ok (.plain w)
  | .object members => ((InflectedUnit.ofMembers members).mapError (.badUnit index)).map .inflected
  | v => .error (.notUnit index v.kind)

end ScaleUnit

namespace UnitSet

def exponent? (key : String) : Option UInt32 :=
  ((Numeral.magnitude? key.toList).filter (· < UInt32.size)).map UInt32.ofNat

def bindWord (words : SortedMap UInt32 String) (key : String) (v : Value) :
    Except UnitsFault (SortedMap UInt32 String) :=
  match exponent? key, v with
  | none, _ => .error (.badExponent key)
  | some e, .string w => .ok (words.insert e w)
  | some e, v => .error (.notWord e v.kind)

/-- The units of a list, or of an object that gives words by exponent. -/
def ofValue : Value → Except UnitsFault UnitSet
  | .array items => .ordered <$> items.zipIdx.mapM fun (v, i) => ScaleUnit.ofElement i v
  | .object members =>
    .byExponent <$> members.foldlM (fun words m => bindWord words m.1 m.2) .empty
  | v => .error (.notCollection v.kind)

end UnitSet

/-! ## Descriptors -/

namespace Descriptor

/-- A lexicon: an object of words by number.  Of two words of a number the later one counts. -/
def readLexicon : Reader Lexicon :=
  Json.readMap (fun l cs => do
    let (k, cs) ← Json.naturalName cs
    let ((), cs) ← Json.colon cs
    let (w, cs) ← Json.readString cs
    .ok (l.insert k w, cs)) .empty

def readAlternatives : Reader (SortedMap String Lexicon) :=
  Json.readMap (fun m cs => do
    let (name, cs) ← Json.string cs
    let ((), cs) ← Json.colon cs
    let (l, cs) ← readLexicon cs
    .ok (m.insert name l, cs)) .empty

/-- The units stand one level below the descriptor. -/
def readUnits : Reader UnitSet := fun cs => do
  let (v, rest) ← Json.value (Json.deepestNesting - 1) cs
  let units ← (UnitSet.ofValue v).mapError (.shape ∘ .units)
  .ok (units, rest)

def setWith {α : Type} (read : Reader α) (set : Descriptor → α → Descriptor) (d : Descriptor) :
    Reader Descriptor := fun cs => do
  let (a, rest) ← read cs
  .ok (set d a, rest)

/-- The fields of a descriptor in order, and how each is read. -/
def fields : List (String × (Descriptor → Reader Descriptor)) :=
  [("useLongScale", setWith Json.readBoolean fun d b => { d with longScale := b }),
    ("baseSeparator", setWith Json.readString fun d s => { d with tensSeparator := s }),
    ("unitSeparator", setWith Json.readString fun d s => { d with tailSeparator := s }),
    ("allSeparator", setWith Json.readOptionalString fun d s => { d with chunkSeparator := s }),
    ("base", setWith readLexicon fun d l => { d with base := l }),
    ("alternativeBase", setWith readAlternatives fun d m => { d with alternatives := m }),
    ("unitExceptions", setWith readLexicon fun d l => { d with exceptions := l }),
    ("units", setWith readUnits fun d u => { d with units := u }),
    ("andException", setWith Json.readBoolean fun d b => { d with keepsAnd := b }),
    ("andWhenTrailing", setWith Json.readBoolean fun d b => { d with joinsTail := b })]

def required : List String := ["base", "units"]

def blank : Descriptor := { base := .empty, units := .ordered [] }

/-- A descriptor of which some fields have been read. -/
structure Draft where
  seen : List String
  descriptor : Descriptor

/-- Read a member after the opening quote of its name.  A known field may come only once; an unknown
one is passed over. -/
def readMember (draft : Draft) : Reader Draft := fun cs => do
  let (name, cs) ← Json.string cs
  match fields.lookup name with
  | some read =>
    if draft.seen.contains name then .error (.shape (.repeated name))
    else
      let ((), cs) ← Json.colon cs
      let (d, cs) ← read draft.descriptor cs
      .ok ({ seen := name :: draft.seen, descriptor := d }, cs)
  | none =>
    let ((), cs) ← Json.colon cs
    let ((), cs) ← Json.skip cs
    .ok (draft, cs)

/-- The descriptor of a draft in which no required field is missing. -/
def Draft.finish (draft : Draft) : Except JsonFault Descriptor :=
  match required.find? fun name => !draft.seen.contains name with
  | some name => .error (.shape (.field (.missing name)))
  | none => .ok draft.descriptor

/-- Read the fields of a list in order, up to its closing bracket.  A list may end before a field
that is not required. -/
def readItems : List (String × (Descriptor → Reader Descriptor)) → Nat → Descriptor →
    Reader Descriptor
  | [], _, d, cs =>
    match Json.skipBlank cs with
    | [] => .error .truncated
    | ']' :: rest => .ok (d, rest)
    | _ => .error .malformed
  | (name, read) :: more, index, d, cs =>
    match Json.skipBlank cs with
    | [] => .error .truncated
    | ']' :: rest =>
      if required.contains name then .error (.shape (.tooShort index))
      else readItems more (index + 1) d (']' :: rest)
    | c :: rest =>
      if index = 0 then do
        let (d, cs) ← read d (c :: rest)
        readItems more (index + 1) d cs
      else if c = ',' then
        match Json.skipBlank rest with
        | [] => .error .truncated
        | ']' :: _ => .error .malformed
        | cs => do
          let (d, cs) ← read d cs
          readItems more (index + 1) d cs
      else .error .malformed

def reader : Reader Descriptor := fun cs =>
  match Json.skipBlank cs with
  | '{' :: rest => do
    let start : Draft := { seen := [], descriptor := blank }
    let (draft, rest) ← Json.members readMember (rest.length + 1) true start rest
    .ok (← draft.finish, rest)
  | '[' :: rest => readItems fields 0 blank rest
  | _ => Json.mismatch .descriptor cs

def decode (text : String) : Except JsonFault Descriptor := do
  let (d, rest) ← reader text.toList
  Json.endOfText rest
  .ok d

/-- The valid descriptor of a text.  The text is read as a value first, so that units of a wrong
shape are the fault before any other. -/
def load (text : String) : Except Error Descriptor := do
  let v ← (Json.parse text).mapError .json
  let _ ← (UnitSet.ofValue ((v.member? "units").getD .null)).mapError .units
  let d ← (decode text).mapError .json
  d.validate
  .ok d

end Descriptor
end NumberWords
