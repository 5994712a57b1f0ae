import NumberWords.Descriptor
import NumberWords.Json.Printer

/-!
Descriptors as JSON values.  Fields stand in a fixed order; flags that are off, absent options and
empty collections are left out, but for the two separators, the base, the units and the singular.
-/

namespace NumberWords

open Json (Value)

namespace Json

def flagField (name : String) (b : Bool) : List (String × Value) :=
  if b then [(name, .boolean true)] else []

def optionField (name : String) (s : Option String) : List (String × Value) :=
  match s with
  | some s => [(name, .string s)]
  | none => []

def countsField (name : String) (counts : List UInt64) : List (String × Value) :=
  if counts.isEmpty then [] else [(name, .array (counts.map fun c => .number (.natural c)))]

end Json

open Json

def InflectedUnit.toValue (u : InflectedUnit) : Value :=
  .object <| ("singular", .string u.singular)
    :: optionField "plural" u.plural
    ++ optionField "few" u.few
    ++ optionField "dual" u.dual
    ++ flagField "useSingularEnding" u.singularEnding
    ++ flagField "useFewEnding" u.fewEnding
    ++ countsField "avoidEndingRules" u.endingExceptions
    ++ countsField "avoidPrefixException" u.bareCounts
    ++ flagField "avoidInNumberPlural" u.singularBeforeTail
    ++ flagField "restrictedPlural" u.pluralUpToTen
    ++ flagField "useBaseInstead" u.compound
    ++ countsField "useBaseException" u.compoundExceptions
    ++ flagField "useBaseExceptionWhenNoTrailingNumbers" u.exceptionsNeedTail
    ++ optionField "useAlternativeBase" u.countBase
    ++ flagField "andException" u.keepsAnd

def ScaleUnit.toValue : ScaleUnit → Value
  | .plain w => .string w
  | .inflected u => u.toValue

def UnitSet.toValue : UnitSet → Value
  | .ordered units => .array (units.map ScaleUnit.toValue)
  | .byExponent words =>
    .object (words.entries.map fun (e, w) => (toString e.toNat, .string w))

def Lexicon.toValue (l : Lexicon) : Value :=
  .object (l.entries.map fun (k, w) => (toString k.toNat, .string w))

namespace Descriptor

def toValue (d : Descriptor) : Value :=
  .object <| flagField "useLongScale" d.longScale
    ++ [("baseSeparator", .string d.tensSeparator), ("unitSeparator", .string d.tailSeparator)]
    ++ optionField "allSeparator" d.chunkSeparator
    ++ [("base", d.base.toValue)]
    ++ (if d.alternatives.isEmpty then []
      else [("alternativeBase",
        .object (d.alternatives.entries.map fun (name, l) => (name, Lexicon.toValue l)))])
    ++ (if d.exceptions.isEmpty then [] else [("unitExceptions", d.exceptions.toValue)])
    ++ [("units", d.units.toValue)]
    ++ flagField "andException" d.keepsAnd
    ++ flagField "andWhenTrailing" d.joinsTail

def encode (d : Descriptor) : String := d.toValue.pretty

end Descriptor
end NumberWords
