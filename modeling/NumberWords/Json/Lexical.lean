import NumberWords.Error
import NumberWords.Number.Numeral
import NumberWords.SortedMap

/-!
The words of a JSON text: blanks, the three names, strings and numbers.

A reader takes a value from the front of a text and returns the rest.  A text that ends inside a
word is truncated; one that goes on with a character which cannot stand there is malformed.
-/

namespace NumberWords
namespace Json

/-- Reads a value from the front of a text and returns the rest. -/
abbrev Reader (α : Type) := List Char → Except JsonFault (α × List Char)

def isBlank (c : Char) : Bool := c = ' ' || c = '\t' || c = '\r' || c = '\n'

def skipBlank (cs : List Char) : List Char := cs.dropWhile isBlank

def literal : List Char → Reader Unit
  | [], cs => .ok ((), cs)
  | _ :: _, [] => .error .truncated
  | e :: es, c :: cs => if c = e then literal es cs else .error .malformed

/-! ## Strings -/

def hexDigit? (c : Char) : Option Nat :=
  if c.isDigit then some (c.toNat - '0'.toNat)
  else if 'a' ≤ c && c ≤ 'f' then some (c.toNat - 'a'.toNat + 10)
  else if 'A' ≤ c && c ≤ 'F' then some (c.toNat - 'A'.toNat + 10)
  else none

/-- Four hexadecimal digits.  A text of fewer than four bytes is truncated, whatever they are. -/
def hexUnit : Reader Nat
  | a :: b :: c :: d :: rest =>
    match hexDigit? a, hexDigit? b, hexDigit? c, hexDigit? d with
    | some a, some b, some c, some d => .ok (((a * 16 + b) * 16 + c) * 16 + d, rest)
    | _, _, _, _ => .error .malformed
  | cs => if (String.ofList cs).utf8ByteSize < 4 then .error .truncated else .error .malformed

def expect (e : Char) : Reader Unit
  | [] => .error .truncated
  | c :: rest => if c = e then .ok ((), rest) else .error .malformed

def isHighSurrogate (n : Nat) : Bool := 0xD800 ≤ n && n ≤ 0xDBFF

def isLowSurrogate (n : Nat) : Bool := 0xDC00 ≤ n && n ≤ 0xDFFF

def escapedUnit : Reader Char := fun cs => do
  let (high, cs) ← hexUnit cs
  if isLowSurrogate high then .error .malformed
  else if !isHighSurrogate high then .ok (Char.ofNat high, cs)
  else
    let ((), cs) ← expect '\\' cs
    let ((), cs) ← expect 'u' cs
    let (low, cs) ← hexUnit cs
    if isLowSurrogate low then
      .ok (Char.ofNat (0x10000 + (high - 0xD800) * 0x400 + (low - 0xDC00)), cs)
    else .error .malformed

def escapeLetter? (c : Char) : Option Char :=
  if c = '"' || c = '\\' || c = '/' then some c
  else if c = 'b' then some '\x08'
  else if c = 'f' then some '\x0c'
  else if c = 'n' then some '\n'
  else if c = 'r' then some '\r'
  else if c = 't' then some '\t'
  else none

/-- One character of a string, which is not the closing quote. -/
def stringChar : Reader Char
  | [] => .error .truncated
  | '\\' :: [] => .error .truncated
  | '\\' :: c :: rest =>
    match escapeLetter? c with
    | some e => .ok (e, rest)
    | none => if c = 'u' then escapedUnit rest else .error .malformed
  | c :: rest => if c < ' ' then .error .malformed else .ok (c, rest)

/-- The characters up to the closing quote.  Each takes one step. -/
def stringChars : Nat → Reader (List Char)
  | 0, _ => .error .truncated
  | _ + 1, '"' :: rest => .ok ([], rest)
  | steps + 1, cs => do
    let (c, cs) ← stringChar cs
    let (s, cs) ← stringChars steps cs
    .ok (c :: s, cs)

def string : Reader String := fun cs => do
  let (s, rest) ← stringChars (cs.length + 1) cs
  .ok (String.ofList s, rest)

/-- Pass over a string without reading it.  Escaped surrogates need not pair up. -/
def skipStringChars : Nat → Reader Unit
  | 0, _ => .error .truncated
  | _ + 1, [] => .error .truncated
  | _ + 1, '"' :: rest => .ok ((), rest)
  | _ + 1, '\\' :: [] => .error .truncated
  | steps + 1, '\\' :: c :: rest =>
    if (escapeLetter? c).isSome then skipStringChars steps rest
    else if c = 'u' then do
      let (_, rest) ← hexUnit rest
      skipStringChars steps rest
    else .error .malformed
  | steps + 1, c :: rest => if c < ' ' then .error .malformed else skipStringChars steps rest

def skipString : Reader Unit := fun cs => skipStringChars (cs.length + 1) cs

/-! ## Numbers -/

def digitValue (c : Char) : Nat := c.toNat - '0'.toNat

/-- Append digits to a number as long as it has at most 64 bits.  Returns the digits that are
left. -/
def appendDigits : Nat → List Char → Nat × List Char
  | n, [] => (n, [])
  | n, c :: cs =>
    let longer := 10 * n + digitValue c
    if longer < UInt64.size then appendDigits longer cs else (n, c :: cs)

def nearestTenPow (k : Nat) : Binary64 := Numeral.ofDecimal false 1 k

/-- A number times a power of ten.  The power is rounded before the product or the quotient is, and
below `10 ^ -308` the division is done in two parts.  There is no result beyond the largest finite
number. -/
def timesTenPower? (x : Binary64) (k : Int) : Option Binary64 :=
  match x with
  | .finite negative m _ =>
    if m = 0 then some x
    else if 308 < k then none
    else if 0 ≤ k then
      match x.mul (nearestTenPow k.toNat) with
      | .infinite _ => none
      | y => some y
    else if -308 ≤ k then some (x.div (nearestTenPow (-k).toNat))
    else if -616 ≤ k then some ((x.div (nearestTenPow 308)).div (nearestTenPow (-k - 308).toNat))
    else some (.zero negative)
  | _ => none

def digits : Reader (List Char)
  | [] => .error .truncated
  | c :: rest =>
    if c.isDigit then .ok ((c :: rest).takeWhile Char.isDigit, (c :: rest).dropWhile Char.isDigit)
    else .error .malformed

/-- The digits before the point.  A zero stands alone. -/
def wholeDigits : Reader (List Char) := fun cs => do
  let (ds, rest) ← digits cs
  if ds.head? = some '0' && 1 < ds.length then .error .malformed else .ok (ds, rest)

def fractionDigits : Reader (Option (List Char))
  | '.' :: cs => do
    let (ds, rest) ← digits cs
    .ok (some ds, rest)
  | cs => .ok (none, cs)

def exponent : Reader (Option Int)
  | c :: cs =>
    if c = 'e' || c = 'E' then do
      let (negative, cs) := match cs with
        | '+' :: cs => (false, cs)
        | '-' :: cs => (true, cs)
        | cs => (false, cs)
      let (ds, rest) ← digits cs
      let n : Int := Nat.ofDigitChars 10 ds 0
      .ok (some (if negative then -n else n), rest)
    else .ok (none, c :: cs)
  | [] => .ok (none, [])

/-- A whole number.  Zero with a sign and numbers of more than 64 bits are floating-point
numbers. -/
def wholeNumber (negative : Bool) (n : Nat) : Number :=
  if !negative then .natural (UInt64.ofNat n)
  else if 0 < n && n ≤ UInt64.size / 2 then .negative n
  else .float (.nearest true n 1)

/-- The number of the written digits.  Digits that do not fit into 64 bits count as zeros before the
point and are dropped after it. -/
def numberOf? (negative : Bool) (whole : List Char) (fraction : Option (List Char))
    (exponent : Option Int) : Option Number :=
  let (n, dropped) := appendDigits 0 whole
  if fraction.isNone && exponent.isNone && dropped.isEmpty then some (wholeNumber negative n)
  else
    let places := fraction.getD []
    let (m, left) := appendDigits n places
    let shift : Int := dropped.length - (places.length - left.length : Nat) + exponent.getD 0
    (timesTenPower? (.nearest negative m 1) shift).map .float

def number (negative : Bool) : Reader Number := fun cs => do
  let (whole, cs) ← wholeDigits cs
  let (fraction, cs) ← fractionDigits cs
  let (exponent, cs) ← exponent cs
  match numberOf? negative whole fraction exponent with
  | some n => .ok (n, cs)
  | none => .error .malformed

/-- Pass over digits, at least one.  Their end is not told from the end of the text. -/
def skipDigits : Reader Unit
  | [] => .error .malformed
  | c :: rest =>
    if c.isDigit then .ok ((), (c :: rest).dropWhile Char.isDigit) else .error .malformed

/-- Pass over a number after its sign, whatever its value. -/
def skipNumber : Reader Unit := fun cs => do
  let whole := cs.takeWhile Char.isDigit
  let ((), cs) ← skipDigits cs
  if whole.head? = some '0' && 1 < whole.length then .error .malformed
  else
    let ((), cs) ← match cs with
      | '.' :: cs => skipDigits cs
      | cs => .ok ((), cs)
    match cs with
    | c :: rest =>
      if c = 'e' || c = 'E' then
        match rest with
        | '+' :: rest => skipDigits rest
        | '-' :: rest => skipDigits rest
        | rest => skipDigits rest
      else .ok ((), c :: rest)
    | [] => .ok ((), [])

end Json
end NumberWords
