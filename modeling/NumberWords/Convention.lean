/-!
The two numbering conventions for ordered units.
-/

namespace NumberWords

/-- The short scale names every third power of ten from the thousand on, the long scale every sixth
from the million on. -/
inductive Convention where
  | short
  | long
deriving DecidableEq, Repr

namespace Convention

def positions : Nat := 17

/-- The power of ten of a position: 2, 3, 6, 9, 12, ... on the short scale and 2, 3, 6, 12, 18, ...
on the long one. -/
def exponent? (c : Convention) (position : Nat) : Option Nat :=
  if positions ≤ position then none
  else match c, position with
    | _, 0 => some 2
    | .short, p => some (3 * p)
    | .long, 1 => some 3
    | .long, p => some (6 * (p - 1))

def name : Convention → String
  | .short => "Short"
  | .long => "Long"

end Convention
end NumberWords
