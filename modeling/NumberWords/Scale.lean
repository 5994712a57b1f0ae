import NumberWords.Descriptor
import NumberWords.Error
import NumberWords.Number.Numeral

/-!
Scale tables: the threshold and the divisor of each unit of a language.
-/

namespace NumberWords

/-- One scale position.  The count of the unit is taken modulo the divisor, if there is one. -/
structure Step where
  threshold : Nat
  divisor : Option Nat
deriving DecidableEq, Repr

namespace Step

def count (s : Step) (n : Nat) : Nat :=
  match s.divisor with
  | some d => n / s.threshold % d
  | none => n / s.threshold

end Step

/-- `10 ^ e` when it is a magnitude.  The powers that are end with the thirty-eighth. -/
def tenPow? (e : Nat) : Option Nat := if e ≤ 38 then some (Nat.pow 10 e) else none

/-- One entry for each unit, `none` where the threshold is no magnitude. -/
structure ScaleTable where
  steps : List (Option Step)
deriving DecidableEq, Repr

namespace ScaleTable

/-- Counts of the largest unit start again here. -/
def lastDivisor : Nat := Nat.pow 10 6

/-- The entries of ascending exponents.  Between two thresholds the divisor is their quotient; a
unit below an absent threshold has none, since no count reaches it. -/
def stepsOf : List Nat → List (Option Step)
  | [] => []
  | [e] => [(tenPow? e).map fun t => { threshold := t, divisor := some lastDivisor }]
  | e :: e' :: rest =>
    (tenPow? e).map (fun t => { threshold := t, divisor := (tenPow? e').map (· / t) })
      :: stepsOf (e' :: rest)

def firstDescent? : List Nat → Option (Nat × Nat)
  | e :: e' :: rest => if e' ≤ e then some (e, e') else firstDescent? (e' :: rest)
  | _ => none

def ofExponents (exponents : List Nat) : Except DescriptorFault ScaleTable :=
  if exponents.contains 0 then .error .zeroExponent
  else match firstDescent? exponents with
    | some (e, e') => .error (.notAscending e e')
    | none => .ok { steps := stepsOf exponents }

def step? (t : ScaleTable) (index : Nat) : Option Step := t.steps[index]?.join

end ScaleTable

def Convention.thresholds (c : Convention) : List Nat :=
  ((List.range Convention.positions).filterMap c.exponent?).filterMap tenPow?

namespace Descriptor

def convention (d : Descriptor) : Convention := if d.longScale then .long else .short

def exponents (d : Descriptor) : Except UnitsFault (List Nat) :=
  match d.units with
  | .ordered units =>
    if units.isEmpty then .error .noUnits
    else if Convention.positions < units.length then .error (.tooMany units.length d.convention)
    else .ok ((List.range units.length).filterMap d.convention.exponent?)
  | .byExponent words =>
    if words.isEmpty then .error .noUnits else .ok (words.keys.map (·.toNat))

def scale (d : Descriptor) : Except Error ScaleTable := do
  let exponents ← d.exponents.mapError .units
  (ScaleTable.ofExponents exponents).mapError .descriptor

end Descriptor
end NumberWords
