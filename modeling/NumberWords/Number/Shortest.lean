import NumberWords.Number.Binary64

/-!
The shortest decimal of a floating-point number: of all decimals that read back as the number, those
with the fewest digits, and of these the nearest.
-/

namespace NumberWords

inductive Tie where
  | up
  | even
deriving DecidableEq, Repr

namespace Binary64

/-- The decimal `c` on the grid of multiples of `10 ^ k` that reads back as `m * 2 ^ e` and is
nearest to it, if the grid has one.  A decimal reads back when it is within half a step of the
number, the ends included for an even mantissa; below a power of two the step is half as large. -/
def onGrid? (tie : Tie) (m : Nat) (e k : Int) : Option Nat :=
  -- A decimal c and the quarter steps of the number, both as multiples of one unit.
  let p := Nat.pow 10 k.toNat * Nat.pow 2 (2 - e).toNat
  let q := Nat.pow 10 (-k).toNat * Nat.pow 2 (e - 2).toNat
  let value := 4 * m * q
  let low := (if m = Nat.pow 2 52 && e != leastExponent then 4 * m - 1 else 4 * m - 2) * q
  let high := (4 * m + 2) * q
  let readsBack (c : Nat) : Bool :=
    if m % 2 = 0 then low ≤ c * p && c * p ≤ high else low < c * p && c * p < high
  let below := value / p
  let above := below + 1
  match readsBack below, readsBack above with
  | false, false => none
  | true, false => some below
  | false, true => some above
  | true, true =>
    let toBelow := value - below * p
    let toAbove := above * p - value
    if toBelow < toAbove then some below
    else if toAbove < toBelow then some above
    else match tie with
      | .up => some above
      | .even => if below % 2 = 0 then some below else some above

def searchGrids (tie : Tie) (m : Nat) (e : Int) : Nat → Int → Nat × Int
  | 0, k => (0, k)
  | steps + 1, k =>
    match onGrid? tie m e k with
    | some c => (c, k)
    | none => searchGrids tie m e steps (k - 1)

/-- Digits `c` and exponent `k` of the shortest decimal `c * 10 ^ k` of `m * 2 ^ e`.  No number
needs a grid finer than seventeen digits, and the smallest one begins 324 places after the point. -/
def shortest (tie : Tie) (m : Nat) (e : Int) : Nat × Int :=
  if m = 0 then (0, 0)
  else
    let whole := m * Nat.pow 2 e.toNat / Nat.pow 2 (-e).toNat
    let digits := if whole = 0 then 0 else (Nat.toDigits 10 whole).length
    searchGrids tie m e 360 digits

def positional (c : Nat) (k : Int) : List Char :=
  let digits := Nat.toDigits 10 c
  if 0 ≤ k then digits ++ List.replicate k.toNat '0'
  else
    let places := (-k).toNat
    if places < digits.length then
      digits.take (digits.length - places) ++ '.' :: digits.drop (digits.length - places)
    else '0' :: '.' :: List.replicate (places - digits.length) '0' ++ digits

/-- The shortest decimal, never with an exponent, and without a point for a whole number. -/
def decimal : Binary64 → String
  | .nan => "NaN"
  | .infinite negative => if negative then "-inf" else "inf"
  | .finite negative m e =>
    let (c, k) := shortest .up m e
    let digits := if m = 0 then ['0'] else positional c k
    String.ofList (if negative then '-' :: digits else digits)

end Binary64
end NumberWords
