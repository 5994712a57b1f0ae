import NumberWords.Number.Shortest

/-!
JSON values.
-/

namespace NumberWords
namespace Json

/-- A number: a natural number of 64 bits, a negative integer of 64 bits, or a floating-point
number. -/
inductive Number where
  | natural (n : UInt64)
  /-- The integer `-n`. -/
  | negative (n : Nat)
  | float (x : Binary64)
deriving DecidableEq, Repr

/-- A JSON value.  Members stand in the order in which they are written. -/
inductive Value where
  | null
  | boolean (b : Bool)
  | number (n : Number)
  | string (s : String)
  | array (items : List Value)
  | object (members : List (String × Value))
deriving Repr

inductive Kind where
  | null
  | boolean
  | number
  | string
  | array
  | object
deriving DecidableEq, Repr

def Kind.phrase : Kind → String
  | .null => "null"
  | .boolean => "a boolean"
  | .number => "a number"
  | .string => "a string"
  | .array => "an array"
  | .object => "an object"

namespace Value

def kind : Value → Kind
  | .null => .null
  | .boolean _ => .boolean
  | .number _ => .number
  | .string _ => .string
  | .array _ => .array
  | .object _ => .object

def member? (v : Value) (name : String) : Option Value :=
  match v with
  | .object members => members.lookup name
  | _ => none

end Value

/-- The shortest decimal of a float: positional when the leading digit stands between the places
`10 ^ -5` and `10 ^ 15`, with `.0` on a whole number; otherwise with a signed exponent. -/
def floatText : Binary64 → String
  | .nan => "NaN"
  | .infinite negative => if negative then "-inf" else "inf"
  | .finite negative m e =>
    let (c, k) := Binary64.shortest .even m e
    let digits := Nat.toDigits 10 c
    let lead : Int := (digits.length : Int) - 1 + k
    let body : List Char :=
      if m = 0 then ['0', '.', '0']
      else if -5 ≤ lead && lead ≤ 15 then
        Binary64.positional c k ++ (if 0 ≤ k then ['.', '0'] else [])
      else
        let fraction := match digits.drop 1 with
          | [] => []
          | rest => '.' :: rest
        digits.take 1 ++ fraction ++ 'e' :: (if lead < 0 then '-' else '+')
          :: Nat.toDigits 10 lead.natAbs
    String.ofList (if negative then '-' :: body else body)

end Json
end NumberWords
