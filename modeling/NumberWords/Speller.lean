import NumberWords.Reading
import NumberWords.Scale
import NumberWords.Text

/-!
Spelling a magnitude in the words of a language.

A magnitude with a word of its own is that word.  Below one hundred it is a tens word and a digit.
From one hundred on it is a sum of chunks: the tail below one hundred, then one chunk for each unit
with a count, whose count is spelled in turn.  Nested spelling stops at a fixed level, so a
descriptor without a word for a digit fails and does not loop.
-/

namespace NumberWords

/-- The choices of one spelling.  A nested spelling has choices of its own. -/
structure Frame where
  /-- The alternative base whose words come before the base. -/
  alternative : Option String := none
  /-- Leave out the tail separator. -/
  noAnd : Bool := false
deriving DecidableEq, Repr

structure Speller where
  descriptor : Descriptor
  scale : ScaleTable

def Descriptor.speller (d : Descriptor) : Except Error Speller := do
  .ok { descriptor := d, scale := ← d.scale }

structure Visit where
  step : Step
  count : Nat
  chunk : Option Chunk

/-- What a chunk takes from the number.  A unit said in one word takes nothing. -/
def Visit.spent (v : Visit) : Nat :=
  match v.chunk with
  | some (.counted ..) => v.count * v.step.threshold
  | _ => 0

namespace Speller

def units (s : Speller) : List (ScaleUnit × Option Step) :=
  s.descriptor.units.toList.zip s.scale.steps

def alternative? (s : Speller) (f : Frame) : Option Lexicon :=
  f.alternative.bind fun name => s.descriptor.alternatives.find? name

def lexiconWord? (s : Speller) (f : Frame) (n : Nat) : Option String :=
  ((s.alternative? f).bind fun l => Lexicon.word? l n).or (Lexicon.word? s.descriptor.base n)

/-- The word that says a number whole: of the exceptions, else of the alternative base, else of the
base.  There the empty word does not count. -/
def wholeWord? (s : Speller) (f : Frame) (n : Nat) : Option String :=
  (Lexicon.word? s.descriptor.exceptions n).or <|
    ((s.alternative? f).bind fun l => Lexicon.word? l n).or <|
      (Lexicon.word? s.descriptor.base n).filter (· != "")

def separatesTail (s : Speller) (f : Frame) : Bool := !f.noAnd || s.descriptor.keepsAnd

def countFrame (s : Speller) : ScaleUnit → Frame
  | .plain _ => { noAnd := !s.descriptor.keepsAnd }
  | .inflected u =>
    { alternative := u.countBase, noAnd := !(s.descriptor.keepsAnd || u.keepsAnd) }

abbrev Nested := Nat → Frame → Except SpellFault Reading

/-- The chunk of a unit with a nonzero count.  `sub` spells the count. -/
def unitChunk (s : Speller) (sub : Nested) (f : Frame) (tail : Bool) (position : Nat)
    (unit : ScaleUnit) (step : Step) (count : Nat) : Except SpellFault Chunk :=
  let counted : Except SpellFault Chunk := do
    .ok (.counted position count (← sub count (s.countFrame unit)) (unit.wordFor count tail))
  match unit with
  | .plain _ => counted
  | .inflected u =>
    if u.compound then
      if u.exceptsCompound position count tail then .ok (.whole position count (u.ownWord count))
      else match s.lexiconWord? f (count * step.threshold) with
        | some w => .ok (.whole position count w)
        | none => .error (.missingWord (count * step.threshold))
    else if listed u.bareCounts count then .ok (.whole position count (unit.wordFor count tail))
    else counted

def visit (s : Speller) (sub : Nested) (f : Frame) (tail : Bool) (position : Nat)
    (unit : ScaleUnit) (step : Step) (remaining : Nat) : Except SpellFault Visit :=
  let count := step.count remaining
  if count = 0 then .ok { step, count, chunk := none }
  else (fun chunk => { step, count, chunk := some chunk }) <$>
    s.unitChunk sub f tail position unit step count

/-- Go through the units from the smallest on.  `remaining` is the number less what the chunks so
far have taken.  Thresholds ascend, so the first absent one ends the walk. -/
def visits (s : Speller) (sub : Nested) (f : Frame) (tail : Bool) :
    Nat → List (ScaleUnit × Option Step) → Nat → Except SpellFault (List Visit)
  | position, (unit, some step) :: rest, remaining => do
    let visit ← s.visit sub f tail position unit step remaining
    .ok (visit :: (← s.visits sub f tail (position + 1) rest (remaining - visit.spent)))
  | _, (_, none) :: _, _ => .ok []
  | _, [], _ => .ok []

def leadThreshold? (visits : List Visit) : Option Nat :=
  (visits.filter (·.count != 0)).getLast?.map (·.step.threshold)

def spent : List Visit → Nat
  | [] => 0
  | v :: rest => v.spent + spent rest

/-- What is left of a number below its most significant unit.  The parts that were said in one word
are still there. -/
def leftover (n : Nat) (visits : List Visit) : Nat :=
  match leadThreshold? visits with
  | some t => (n - spent visits) % t
  | none => 0

/-- Put a bare conjunction after the lowest chunk when something is left over and the chunk does not
begin with the tail separator. -/
def conjoin (s : Speller) (leftover : Nat) : List Chunk → List Chunk
  | [] => []
  | lowest :: higher =>
    let separator := s.descriptor.tailSeparator
    if s.descriptor.joinsTail && leftover != 0
        && !separator.toList.isPrefixOf (lowest.text s.descriptor).toList then
      lowest :: .conjunction (Text.trim separator) :: higher
    else lowest :: higher

def readTens (s : Speller) (sub : Nested) (n : Nat) (f : Frame) : Except SpellFault Reading :=
  let word := (s.lexiconWord? f (n / 10 * 10)).getD ""
  if n % 10 = 0 then .ok (.word word) else .tens word <$> sub (n % 10) f

def tailChunks (s : Speller) (sub : Nested) (n : Nat) (f : Frame) :
    Except SpellFault (List Chunk) :=
  if n % 100 = 0 then .ok []
  else (fun r => [.tail (s.separatesTail f) r]) <$> sub (n % 100) f

def readSum (s : Speller) (sub : Nested) (n : Nat) (f : Frame) : Except SpellFault Reading := do
  let lowest ← s.tailChunks sub n f
  let visits ← s.visits sub f (n % 100 != 0) 0 s.units n
  .ok (.sum (s.conjoin (leftover n visits) (lowest ++ visits.filterMap (·.chunk))))

/-- One level of reading; `sub` reads the nested numbers. -/
def readStep (s : Speller) (sub : Nested) (n : Nat) (f : Frame) : Except SpellFault Reading :=
  match s.wholeWord? f n with
  | some w => .ok (.word w)
  | none => if n < 100 then s.readTens sub n f else s.readSum sub n f

def read (s : Speller) : Nat → Nested
  | 0, _, _ => .error .tooDeep
  | levels + 1, n, f => s.readStep (s.read levels) n f

def spell (s : Speller) (n : Nat) (f : Frame) : Except SpellFault String :=
  (Reading.text s.descriptor) <$> s.read (deepestLevel + 1) n f

end Speller
end NumberWords
