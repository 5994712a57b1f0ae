import NumberWords.Json.Lexical

/-!
Readers of JSON values: generic values, values of a wanted type, and values that are only passed
over.

A generic value may nest to a limited depth and keeps the last of members with one name; a value
that is passed over has neither limit.  A typed reader names what it finds in the place of what it
wants.
-/

namespace NumberWords
namespace Json

/-- Read the elements of an array up to its closing bracket, handing a state along.  Each element
takes one step. -/
def elements {σ : Type} (item : σ → Reader σ) : Nat → Bool → σ → Reader σ
  | 0, _, _, _ => .error .truncated
  | steps + 1, first, st, cs =>
    match skipBlank cs with
    | [] => .error .truncated
    | ']' :: rest => .ok (st, rest)
    | c :: rest =>
      if first then do
        let (st, cs) ← item st (c :: rest)
        elements item steps false st cs
      else if c = ',' then
        match skipBlank rest with
        | [] => .error .truncated
        | ']' :: _ => .error .malformed
        | cs => do
          let (st, cs) ← item st cs
          elements item steps false st cs
      else .error .malformed

/-- Read the members of an object up to its closing brace, handing a state along.  A member begins
after the opening quote of its name and takes one step. -/
def members {σ : Type} (member : σ → Reader σ) : Nat → Bool → σ → Reader σ
  | 0, _, _, _ => .error .truncated
  | steps + 1, first, st, cs =>
    match skipBlank cs with
    | [] => .error .truncated
    | '}' :: rest => .ok (st, rest)
    | c :: rest =>
      if first || c = ',' then
        match if first then c :: rest else skipBlank rest with
        | [] => .error .truncated
        | '"' :: cs => do
          let (st, cs) ← member st cs
          members member steps false st cs
        | _ => .error .malformed
      else .error .malformed

def colon : Reader Unit := fun cs => expect ':' (skipBlank cs)

/-- A value, given readers for the insides of arrays and objects. -/
def valueWith (array object : Reader Value) : Reader Value := fun cs =>
  match skipBlank cs with
  | [] => .error .truncated
  | 'n' :: rest => do
    let ((), rest) ← literal ['u', 'l', 'l'] rest
    .ok (.null, rest)
  | 't' :: rest => do
    let ((), rest) ← literal ['r', 'u', 'e'] rest
    .ok (.boolean true, rest)
  | 'f' :: rest => do
    let ((), rest) ← literal ['a', 'l', 's', 'e'] rest
    .ok (.boolean false, rest)
  | '"' :: rest => do
    let (s, rest) ← string rest
    .ok (.string s, rest)
  | '[' :: rest => array rest
  | '{' :: rest => object rest
  | '-' :: rest => do
    let (n, rest) ← number true rest
    .ok (.number n, rest)
  | c :: rest =>
    if c.isDigit then do
      let (n, rest) ← number false (c :: rest)
      .ok (.number n, rest)
    else .error .malformed

def arrayOf (item : Reader Value) : Reader Value := fun cs => do
  let (items, rest) ← elements (fun items cs => do
    let (v, cs) ← item cs
    .ok (items ++ [v], cs)) (cs.length + 1) true [] cs
  .ok (.array items, rest)

/-- The inside of an object whose members one reader reads.  The members come out in order of their
names, and a later member replaces an earlier one of its name. -/
def objectOf (item : Reader Value) : Reader Value := fun cs => do
  let (entries, rest) ← members (fun entries cs => do
    let (name, cs) ← string cs
    let ((), cs) ← colon cs
    let (v, cs) ← item cs
    .ok (SortedMap.insertEntry name v entries, cs)) (cs.length + 1) true [] cs
  .ok (.object entries, rest)

def value : Nat → Reader Value
  | 0 => valueWith (fun _ => .error .malformed) (fun _ => .error .malformed)
  | depth + 1 => valueWith (arrayOf (value depth)) (objectOf (value depth))

def deepestNesting : Nat := 127

def endOfText (cs : List Char) : Except JsonFault Unit :=
  if (skipBlank cs).isEmpty then .ok () else .error .malformed

def parse (text : String) : Except JsonFault Value := do
  let (v, rest) ← value deepestNesting text.toList
  endOfText rest
  .ok v

/-- Pass over a value.  Every nested value takes one step. -/
def skipValue : Nat → Reader Unit
  | 0, _ => .error .truncated
  | steps + 1, cs =>
    match skipBlank cs with
    | [] => .error .truncated
    | 'n' :: rest => literal ['u', 'l', 'l'] rest
    | 't' :: rest => literal ['r', 'u', 'e'] rest
    | 'f' :: rest => literal ['a', 'l', 's', 'e'] rest
    | '"' :: rest => skipString rest
    | '[' :: rest => elements (fun _ => skipValue steps) (steps + 1) true () rest
    | '{' :: rest =>
      members (fun _ cs => do
        let ((), cs) ← skipString cs
        let ((), cs) ← colon cs
        skipValue steps cs) (steps + 1) true () rest
    | '-' :: rest => skipNumber rest
    | c :: rest => if c.isDigit then skipNumber (c :: rest) else .error .malformed

/-- Pass over a value of any depth and of any numbers. -/
def skip : Reader Unit := fun cs => skipValue (cs.length + 1) cs

/-! ## Typed values -/

def Value.found : Value → Found
  | .null => .null
  | .boolean b => .boolean b
  | .number n => .number n
  | .string s => .string s
  | .array _ => .array
  | .object _ => .object

/-- The failure to find a wanted type.  Arrays and objects are not read, only named. -/
def mismatch {α : Type} (wanted : Wanted) : Reader α := fun cs => do
  let unread (v : Value) : Reader Value := fun rest => .ok (v, rest)
  let (v, _) ← valueWith (unread (.array [])) (unread (.object [])) cs
  .error (.shape (.field (.mismatch v.found wanted)))

def readString : Reader String := fun cs =>
  match skipBlank cs with
  | '"' :: rest => string rest
  | _ => mismatch .string cs

def readBoolean : Reader Bool := fun cs =>
  match skipBlank cs with
  | 't' :: rest => do
    let ((), rest) ← literal ['r', 'u', 'e'] rest
    .ok (true, rest)
  | 'f' :: rest => do
    let ((), rest) ← literal ['a', 'l', 's', 'e'] rest
    .ok (false, rest)
  | _ => mismatch .boolean cs

def readOptionalString : Reader (Option String) := fun cs =>
  match skipBlank cs with
  | 'n' :: rest => do
    let ((), rest) ← literal ['u', 'l', 'l'] rest
    .ok (none, rest)
  | _ => do
    let (s, rest) ← readString cs
    .ok (some s, rest)

def readMap {σ : Type} (member : σ → Reader σ) (st : σ) : Reader σ := fun cs =>
  match skipBlank cs with
  | '{' :: rest => members member (rest.length + 1) true st rest
  | _ => mismatch .map cs

/-- A name that is a natural number of 64 bits, after its opening quote.  The number is written as a
JSON number, and nothing follows it. -/
def naturalName : Reader UInt64 := fun cs => do
  let (n, rest) ← match cs with
    | '-' :: rest => number true rest
    | c :: rest => if c.isDigit then number false (c :: rest) else .error .malformed
    | [] => .error .malformed
  match n, rest with
  | .natural k, '"' :: rest => .ok (k, rest)
  | .natural _, _ => .error .malformed
  | n, _ => .error (.shape (.field (.mismatch (.number n) .natural)))

end Json
end NumberWords
