import NumberWords.Json.Value

/-!
The indented text of a JSON value: one element or member a line, two spaces for each depth.
-/

namespace NumberWords
namespace Json

/-- A character inside a string.  Only the quote, the backslash and the controls are escaped. -/
def escapeChar (c : Char) : List Char :=
  if c = '"' || c = '\\' then ['\\', c]
  else if c = '\x08' then ['\\', 'b']
  else if c = '\x0c' then ['\\', 'f']
  else if c = '\n' then ['\\', 'n']
  else if c = '\r' then ['\\', 'r']
  else if c = '\t' then ['\\', 't']
  else if c < ' ' then
    ['\\', 'u', '0', '0', Nat.digitChar (c.toNat / 16), Nat.digitChar (c.toNat % 16)]
  else [c]

def stringText (s : String) : List Char := '"' :: s.toList.flatMap escapeChar ++ ['"']

def Number.text : Number → List Char
  | .natural n => Nat.toDigits 10 n.toNat
  | .negative n => '-' :: Nat.toDigits 10 n
  | .float x => (floatText x).toList

def newLine (depth : Nat) : List Char := '\n' :: List.replicate (2 * depth) ' '

mutual
/-- The text of a value whose first line stands at a depth. -/
def Value.textAt (depth : Nat) : Value → List Char
  | .null => ['n', 'u', 'l', 'l']
  | .boolean true => ['t', 'r', 'u', 'e']
  | .boolean false => ['f', 'a', 'l', 's', 'e']
  | .number n => n.text
  | .string s => stringText s
  | .array [] => ['[', ']']
  | .array (v :: items) =>
    '[' :: newLine (depth + 1) ++ v.textAt (depth + 1) ++ itemsTextAt depth items
  | .object [] => ['{', '}']
  | .object ((name, v) :: members) =>
    '{' :: newLine (depth + 1) ++ stringText name ++ ':' :: ' ' :: v.textAt (depth + 1)
      ++ membersTextAt depth members

def itemsTextAt (depth : Nat) : List Value → List Char
  | [] => newLine depth ++ [']']
  | v :: items =>
    ',' :: newLine (depth + 1) ++ v.textAt (depth + 1) ++ itemsTextAt depth items

def membersTextAt (depth : Nat) : List (String × Value) → List Char
  | [] => newLine depth ++ ['}']
  | (name, v) :: members =>
    ',' :: newLine (depth + 1) ++ stringText name ++ ':' :: ' ' :: v.textAt (depth + 1)
      ++ membersTextAt depth members
end

def Value.pretty (v : Value) : String := String.ofList (v.textAt 0)

end Json
end NumberWords
