import NumberWords.SortedMap
import NumberWords.Unit

/-!
Language descriptors: the words and joining rules of one language.
-/

namespace NumberWords

/-- Numbers below `2 ^ 64` and the words that spell them. -/
abbrev Lexicon := SortedMap UInt64 String

/-- The word of a magnitude.  A magnitude of more than 64 bits has none. -/
def Lexicon.word? (lexicon : Lexicon) (n : Nat) : Option String :=
  (lexicon.entries.find? fun e => e.1.toNat == n).map (·.2)

inductive UnitSet where
  /-- Units whose thresholds follow the short or the long scale. -/
  | ordered (units : List ScaleUnit)
  /-- Plain words by their own power of ten. -/
  | byExponent (words : SortedMap UInt32 String)
deriving DecidableEq

namespace UnitSet

def size : UnitSet → Nat
  | .ordered units => units.length
  | .byExponent words => words.size

def isEmpty (s : UnitSet) : Bool := s.size == 0

/-- The units in ascending order; a word by exponent is a plain unit. -/
def toList : UnitSet → List ScaleUnit
  | .ordered units => units
  | .byExponent words => words.values.map .plain

end UnitSet

/-- The words and joining rules of one language.  The tail of a number is its part below one
hundred. -/
structure Descriptor where
  /-- Ordered units follow the long scale. -/
  longScale : Bool := false
  /-- Between a tens word and a unit word. -/
  tensSeparator : String := ""
  /-- Before the tail of a larger number. -/
  tailSeparator : String := ""
  /-- Before every chunk but the most significant one. -/
  chunkSeparator : Option String := none
  base : Lexicon
  /-- Lexicons that replace words of the base, by name. -/
  alternatives : SortedMap String Lexicon := SortedMap.empty
  /-- Words that come before any decomposition. -/
  exceptions : Lexicon := SortedMap.empty
  units : UnitSet
  /-- Count phrases keep the tail separator. -/
  keepsAnd : Bool := false
  /-- A bare conjunction stands before a lowest chunk that lacks one. -/
  joinsTail : Bool := false
deriving DecidableEq

end NumberWords
