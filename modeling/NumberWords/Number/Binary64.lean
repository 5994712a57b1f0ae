/-!
Binary floating-point numbers of 64 bits, as exact values.  A finite number is
`mantissa * 2 ^ exponent`; every operation is arithmetic on natural numbers.
-/

namespace NumberWords

/-- The natural number nearest to `num / den`.  Halfway between two, the even one. -/
def divNearest (num den : Nat) : Nat :=
  let q := num / den
  let r := num % den
  if 2 * r < den then q
  else if den < 2 * r then q + 1
  else if q % 2 = 0 then q
  else q + 1

/-- A 64-bit floating-point number.  The mantissa has at most 53 bits and the exponent is at least
-1074; a mantissa of fewer than 53 bits goes with the least exponent. -/
inductive Binary64 where
  | nan
  | infinite (negative : Bool)
  | finite (negative : Bool) (mantissa : Nat) (exponent : Int)
deriving DecidableEq, Repr

namespace Binary64

def leastExponent : Int := -1074

def greatestExponent : Int := 971

def zero (negative : Bool) : Binary64 := .finite negative 0 leastExponent

/-- The number nearest to `num / den`.  Halfway between two, the one with the even mantissa; past
the largest finite number, infinity. -/
def nearest (negative : Bool) (num den : Nat) : Binary64 :=
  let quotient (e : Int) : Nat := divNearest (num * Nat.pow 2 (-e).toNat) (den * Nat.pow 2 e.toNat)
  let floor (e : Int) : Nat := num * Nat.pow 2 (-e).toNat / (den * Nat.pow 2 e.toNat)
  -- The quotient lies between 2 ^ 52 and 2 ^ 54 at this exponent.
  let low : Int := (num.log2 : Int) - den.log2 - 53
  let fit : Int := if Nat.pow 2 53 ≤ floor low then low + 1 else low
  let e : Int := max fit leastExponent
  let m := quotient e
  if num = 0 then zero negative
  else if m = Nat.pow 2 53 then
    if greatestExponent < e + 1 then .infinite negative else .finite negative (Nat.pow 2 52) (e + 1)
  else if greatestExponent < e then .infinite negative
  else .finite negative m e

/-- `mantissa * 2 ^ exponent`, rounded if it has too many bits. -/
def ofScaled (negative : Bool) (mantissa : Nat) (exponent : Int) : Binary64 :=
  nearest negative (mantissa * Nat.pow 2 exponent.toNat) (Nat.pow 2 (-exponent).toNat)

/-- The number of a 64-bit pattern: sign, eleven bits of exponent, fifty-two of fraction. -/
def ofBits (bits : UInt64) : Binary64 :=
  let n := bits.toNat
  let negative := Nat.pow 2 63 ≤ n
  let exponent : Nat := n / Nat.pow 2 52 % Nat.pow 2 11
  let fraction := n % Nat.pow 2 52
  if exponent = Nat.pow 2 11 - 1 then if fraction = 0 then .infinite negative else .nan
  else if exponent = 0 then .finite negative fraction leastExponent
  else .finite negative (Nat.pow 2 52 + fraction) ((exponent : Int) - 1075)

/-- The number of a 32-bit pattern: sign, eight bits of exponent, twenty-three of fraction.  Each
such number is also one of 64 bits, so nothing is rounded. -/
def ofBits32 (bits : UInt32) : Binary64 :=
  let n := bits.toNat
  let negative := Nat.pow 2 31 ≤ n
  let exponent : Nat := n / Nat.pow 2 23 % Nat.pow 2 8
  let fraction := n % Nat.pow 2 23
  if exponent = Nat.pow 2 8 - 1 then if fraction = 0 then .infinite negative else .nan
  else if exponent = 0 then ofScaled negative fraction (-149)
  else ofScaled negative (Nat.pow 2 23 + fraction) ((exponent : Int) - 150)

def roundScaled (mantissa : Nat) (exponent : Int) : Nat :=
  divNearest (mantissa * Nat.pow 2 exponent.toNat) (Nat.pow 2 (-exponent).toNat)

def mul : Binary64 → Binary64 → Binary64
  | .finite s m e, .finite s' m' e' => ofScaled (s != s') (m * m') (e + e')
  | .infinite s, .infinite s' => .infinite (s != s')
  | .infinite s, .finite s' m _ => if m = 0 then .nan else .infinite (s != s')
  | .finite s m _, .infinite s' => if m = 0 then .nan else .infinite (s != s')
  | .nan, _ => .nan
  | _, .nan => .nan

def div : Binary64 → Binary64 → Binary64
  | .finite s m e, .finite s' m' e' =>
    if m' = 0 then if m = 0 then .nan else .infinite (s != s')
    else nearest (s != s') (m * Nat.pow 2 (e - e').toNat) (m' * Nat.pow 2 (e' - e).toNat)
  | .infinite _, .infinite _ => .nan
  | .infinite s, .finite s' _ _ => .infinite (s != s')
  | .finite s _ _, .infinite s' => zero (s != s')
  | .nan, _ => .nan
  | _, .nan => .nan

end Binary64
end NumberWords
