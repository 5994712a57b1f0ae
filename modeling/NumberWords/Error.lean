import NumberWords.Convention
import NumberWords.Json.Value
import NumberWords.Text

/-!
The causes of failure and the message of each.
-/

namespace NumberWords

def ticked (s : String) : String := "`" ++ s ++ "`"

inductive InputFault where
  | negative (i : Int)
  | notNonNegative (x : Binary64)
  | outOfRange (x : Binary64)
  | notNumeral (text : String)
deriving DecidableEq, Repr

def InputFault.message : InputFault → String
  | .negative i => toString i ++ " is negative"
  | .notNonNegative x => x.decimal ++ " is not a non-negative number"
  | .outOfRange x => x.decimal ++ " is out of range"
  | .notNumeral text => ticked text ++ " is not a number"

/-- What stands in the place of a typed JSON value. -/
inductive Found where
  | null
  | boolean (b : Bool)
  | number (n : Json.Number)
  | string (s : String)
  | array
  | object
deriving DecidableEq, Repr

def Found.phrase : Found → String
  | .null => "null"
  | .boolean b => "boolean " ++ ticked (if b then "true" else "false")
  | .number (.natural n) => "integer " ++ ticked (toString n.toNat)
  | .number (.negative n) => "integer " ++ ticked (toString (-(n : Int)))
  | .number (.float x) => "floating point " ++ ticked (Json.floatText x)
  | .string s => "string " ++ Text.quote s
  | .array => "sequence"
  | .object => "map"

inductive Wanted where
  | string
  | boolean
  | map
  | list
  | natural
  | descriptor
deriving DecidableEq, Repr

def Wanted.phrase : Wanted → String
  | .string => "a string"
  | .boolean => "a boolean"
  | .map => "a map"
  | .list => "a sequence"
  | .natural => "u64"
  | .descriptor => "struct LanguageDescriptor"

inductive FieldFault where
  | mismatch (found : Found) (wanted : Wanted)
  | missing (name : String)
deriving DecidableEq, Repr

/-- A negative integer in the place of a natural number has the right type and the wrong value. -/
def FieldFault.message : FieldFault → String
  | .mismatch (.number (.negative n)) .natural =>
    "invalid value: " ++ (Found.number (.negative n)).phrase ++ ", expected "
      ++ Wanted.natural.phrase
  | .mismatch found wanted => "invalid type: " ++ found.phrase ++ ", expected " ++ wanted.phrase
  | .missing name => "missing field " ++ ticked name

inductive UnitsFault where
  | noUnits
  | tooMany (count : Nat) (convention : Convention)
  | notCollection (found : Json.Kind)
  | badExponent (key : String)
  | notWord (exponent : UInt32) (found : Json.Kind)
  | notUnit (index : Nat) (found : Json.Kind)
  | badUnit (index : Nat) (fault : FieldFault)
deriving DecidableEq, Repr

def UnitsFault.message : UnitsFault → String
  | .noUnits => "a language needs at least one scale unit"
  | .tooMany count convention =>
    toString count ++ " units exceed the " ++ toString Convention.positions ++ " "
      ++ convention.name ++ " scale positions"
  | .notCollection found => "expected a unit list or an exponent map, found " ++ found.phrase
  | .badExponent key => "exponent key " ++ ticked key ++ " is not a non-negative integer"
  | .notWord exponent found =>
    "unit for exponent " ++ toString exponent.toNat ++ " must be a plain word, found "
      ++ found.phrase
  | .notUnit index found =>
    "unit " ++ toString index ++ " must be a word or a grammar object, found " ++ found.phrase
  | .badUnit index fault => "unit " ++ toString index ++ ": " ++ fault.message

inductive DescriptorFault where
  | zeroExponent
  | notAscending (first second : Nat)
  | strayKey (lexicon : String) (key : UInt64)
  | unknownAlternative (unit name : String)
deriving DecidableEq, Repr

def DescriptorFault.message : DescriptorFault → String
  | .zeroExponent => "unit exponent 0 gives a threshold below 10"
  | .notAscending first second =>
    "unit exponents must ascend strictly, found " ++ toString first ++ " then " ++ toString second
  | .strayKey lexicon key =>
    "lexicon " ++ ticked lexicon ++ " has key " ++ toString key.toNat
      ++ ", outside 0..=99 and not an irregular compound"
  | .unknownAlternative unit name =>
    "unit " ++ ticked unit ++ " references unknown alternative base " ++ ticked name

inductive ShapeFault where
  | field (fault : FieldFault)
  | repeated (name : String)
  | tooShort (length : Nat)
  | units (fault : UnitsFault)
  | noVariant
deriving DecidableEq, Repr

def ShapeFault.message : ShapeFault → String
  | .field fault => fault.message
  | .repeated name => "duplicate field " ++ ticked name
  | .tooShort length =>
    "invalid length " ++ toString length ++ ", expected struct LanguageDescriptor with 10 elements"
  | .units fault => "invalid units: " ++ fault.message
  | .noVariant => "data did not match any variant of untagged enum ScaleUnit"

/-- Why a JSON text is refused: it breaks the grammar, it ends too early, or it has the wrong
shape. -/
inductive JsonFault where
  | malformed
  | truncated
  | shape (fault : ShapeFault)
deriving DecidableEq, Repr

def JsonFault.message : JsonFault → String
  | .malformed => "malformed text"
  | .truncated => "unexpected end of text"
  | .shape fault => fault.message

inductive SpellFault where
  | missingWord (n : Nat)
  | tooDeep
deriving DecidableEq, Repr

def deepestLevel : Nat := 64

def SpellFault.message : SpellFault → String
  | .missingWord n => "language descriptor defines no word for " ++ toString n
  | .tooDeep => "recursion limit of " ++ toString deepestLevel ++ " levels exceeded"

inductive FileFault where
  | notFound
  | busy
  | alreadyExists
  | notDirectory
  | isDirectory
  | invalidArgument
  | nameTooLong
  | zeroInPath
  | notText
  /-- Any other cause, in the system's words. -/
  | other (text : String)
deriving DecidableEq, Repr

def FileFault.message : FileFault → String
  | .notFound => "No such file or directory (os error 2)"
  | .busy => "Device or resource busy (os error 16)"
  | .alreadyExists => "File exists (os error 17)"
  | .notDirectory => "Not a directory (os error 20)"
  | .isDirectory => "Is a directory (os error 21)"
  | .invalidArgument => "Invalid argument (os error 22)"
  | .nameTooLong => "File name too long (os error 36)"
  | .zeroInPath => "file name contained an unexpected NUL byte"
  | .notText => "stream did not contain valid UTF-8"
  | .other text => text

/-- Every failure of the library. -/
inductive Error where
  | input (fault : InputFault)
  | unknownLanguage (code : String)
  | units (fault : UnitsFault)
  | descriptor (fault : DescriptorFault)
  | spelling (fault : SpellFault)
  | json (fault : JsonFault)
  | file (fault : FileFault)
deriving DecidableEq, Repr

def Error.message : Error → String
  | .input fault => "invalid input: " ++ fault.message
  | .unknownLanguage code => "unknown language code " ++ ticked code
  | .units fault => "invalid units: " ++ fault.message
  | .descriptor fault => "invalid language descriptor: " ++ fault.message
  | .spelling fault => fault.message
  | .json fault => "descriptor serialization error: " ++ fault.message
  | .file fault => "i/o error: " ++ fault.message

end NumberWords
