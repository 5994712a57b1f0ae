import NumberWords.Number.Binary64

/-!
Numerals: the texts of natural numbers and of floating-point numbers.
-/

namespace NumberWords
namespace Numeral

def magnitudeBound : Nat := Nat.pow 2 128

/-- The value of a nonempty run of ASCII digits. -/
def natural? (cs : List Char) : Option Nat :=
  if cs.isEmpty || !cs.all Char.isDigit then none else some (Nat.ofDigitChars 10 cs 0)

def magnitude? (cs : List Char) : Option Nat :=
  let digits := match cs with
    | '+' :: rest => rest
    | _ => cs
  (natural? digits).filter (· < magnitudeBound)

/-- The number nearest to `digits * 10 ^ exponent`.  Ten is more than the third power of two, which
tells the answer without arithmetic far outside the range of floating-point numbers. -/
def ofDecimal (negative : Bool) (digits : Nat) (exponent : Int) : Binary64 :=
  let size : Int := digits.log2 + 3 * exponent
  if digits = 0 || size < -1080 then .zero negative
  else if 0 ≤ exponent && 1024 < size then .infinite negative
  else .nearest negative (digits * Nat.pow 10 exponent.toNat) (Nat.pow 10 (-exponent).toNat)

def exponent? : List Char → Option Int
  | '+' :: cs => (natural? cs).map fun n : Nat => (n : Int)
  | '-' :: cs => (natural? cs).map fun n : Nat => -(n : Int)
  | cs => (natural? cs).map fun n : Nat => (n : Int)

/-- An unsigned numeral: digits with an optional point on either side of which digits may be
missing, but not on both, and an optional exponent; or one of three names in either case. -/
def unsigned? (negative : Bool) (cs : List Char) : Option Binary64 :=
  let lower := cs.map Char.toLower
  if lower = ['i', 'n', 'f'] || lower = ['i', 'n', 'f', 'i', 'n', 'i', 't', 'y'] then
    some (.infinite negative)
  else if lower = ['n', 'a', 'n'] then some .nan
  else
    let whole := cs.takeWhile Char.isDigit
    let rest := cs.dropWhile Char.isDigit
    let (fraction, rest) := match rest with
      | '.' :: rest => (rest.takeWhile Char.isDigit, rest.dropWhile Char.isDigit)
      | _ => ([], rest)
    if whole.isEmpty && fraction.isEmpty then none
    else
      let value := Nat.ofDigitChars 10 (whole ++ fraction) 0
      match rest with
      | [] => some (ofDecimal negative value (-(fraction.length : Int)))
      | c :: rest =>
        if c = 'e' || c = 'E' then
          (exponent? rest).map fun e => ofDecimal negative value (e - fraction.length)
        else none

def float? : List Char → Option Binary64
  | '+' :: cs => unsigned? false cs
  | '-' :: cs => unsigned? true cs
  | cs => unsigned? false cs

end Numeral
end NumberWords
