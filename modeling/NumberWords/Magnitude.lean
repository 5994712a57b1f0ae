import NumberWords.Error
import NumberWords.Number.Numeral
import NumberWords.Text

/-!
The magnitude of an input: a natural number below `2 ^ 128`.
-/

namespace NumberWords

inductive Input where
  | integer (i : Int)
  | float (x : Binary64)
  | text (s : String)
deriving DecidableEq, Repr

namespace Binary64

/-- The nearest natural number, halves to even.  Negative zero is zero. -/
def magnitude (x : Binary64) : Except InputFault Nat :=
  match x with
  | .nan => .error (.notNonNegative x)
  | .infinite negative => .error (if negative then .notNonNegative x else .outOfRange x)
  | .finite negative m e =>
    if negative && m != 0 then .error (.notNonNegative x)
    else
      let n := roundScaled m e
      if n < Numeral.magnitudeBound then .ok n else .error (.outOfRange x)

end Binary64

namespace Input

/-- The magnitude of an integer, of a number rounded, or of a numeral between blanks.  A text that
is no natural number within the bound is read as a floating-point numeral. -/
def magnitude : Input → Except InputFault Nat
  | .integer i => if i < 0 then .error (.negative i) else .ok i.toNat
  | .float x => x.magnitude
  | .text s =>
    let cs := Text.trimChars s.toList
    match Numeral.magnitude? cs with
    | some n => .ok n
    | none =>
      match Numeral.float? cs with
      | some x => x.magnitude
      | none => .error (.notNumeral (String.ofList cs))

end Input
end NumberWords
