/-!
Scale units (hundred, thousand, million, ...) and the form a unit takes beside a count.
-/

namespace NumberWords

def listed (counts : List UInt64) (count : Nat) : Bool :=
  counts.any fun c => c.toNat == count

inductive Form where
  | singular
  | dual
  | few
  | plural
deriving DecidableEq, Repr

/-- A unit word with inflected forms and rules for particular counts. -/
structure InflectedUnit where
  singular : String
  plural : Option String := none
  few : Option String := none
  dual : Option String := none
  /-- Counts that end in 1 take the singular. -/
  singularEnding : Bool := false
  /-- Counts that end in 2, 3 or 4 take the few form. -/
  fewEnding : Bool := false
  /-- Counts that the two ending rules leave alone. -/
  endingExceptions : List UInt64 := []
  /-- Counts written as the unit word alone. -/
  bareCounts : List UInt64 := []
  /-- Take the singular when a part below one hundred follows. -/
  singularBeforeTail : Bool := false
  /-- Counts above ten take the singular. -/
  pluralUpToTen : Bool := false
  /-- Count and unit together are one lexicon word. -/
  compound : Bool := false
  /-- Counts that a compound unit writes with its own word instead. -/
  compoundExceptions : List UInt64 := []
  /-- The compound exceptions hold only for the lowest unit with a tail. -/
  exceptionsNeedTail : Bool := false
  /-- The alternative base that spells this unit's counts. -/
  countBase : Option String := none
  /-- Counts of this unit keep the tail separator. -/
  keepsAnd : Bool := false
deriving DecidableEq, Repr

inductive ScaleUnit where
  | plain (word : String)
  | inflected (unit : InflectedUnit)
deriving DecidableEq, Repr

namespace InflectedUnit

/-- The word of a form.  The empty word counts as undefined. -/
def form? (u : InflectedUnit) : Form → Option String
  | .singular => some u.singular
  | .dual => u.dual.filter (· != "")
  | .few => u.few.filter (· != "")
  | .plural => u.plural.filter (· != "")

def form (u : InflectedUnit) (f : Form) : String := (u.form? f).getD u.singular

/-- The form beside a count: the first of singular, dual, few and plural that applies.  `tail` tells
whether a part below one hundred follows. -/
def selectForm (u : InflectedUnit) (count : Nat) (tail : Bool) : Form :=
  let ending := !listed u.endingExceptions count
  if count = 1 || (u.singularEnding && count % 10 == 1 && ending) then .singular
  else if count = 2 && (u.form? .dual).isSome then .dual
  else if (u.form? .few).isSome && ((2 ≤ count && count ≤ 4)
      || (u.fewEnding && 2 ≤ count % 10 && count % 10 ≤ 4 && ending)) then .few
  else if u.pluralUpToTen && 10 < count then .singular
  else if (u.form? .plural).isSome && !(u.singularBeforeTail && tail) then .plural
  else .singular

def exceptsCompound (u : InflectedUnit) (position count : Nat) (tail : Bool) : Bool :=
  listed u.compoundExceptions count && (!u.exceptionsNeedTail || (position == 0 && tail))

def ownWord (u : InflectedUnit) (count : Nat) : String :=
  if 1 < count then u.form .plural else u.singular

end InflectedUnit

namespace ScaleUnit

def word : ScaleUnit → String
  | .plain w => w
  | .inflected u => u.singular

def wordFor (count : Nat) (tail : Bool) : ScaleUnit → String
  | .plain w => w
  | .inflected u => u.form (u.selectForm count tail)

end ScaleUnit
end NumberWords
