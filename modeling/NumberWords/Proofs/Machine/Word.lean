import NumberWords.Proofs.Scale.Ladder

/-!
Arithmetic on words of 128 bits.

An operation without a result among the words traps, and so does a place outside a list.  An
operation that does not trap has the result it has on natural numbers, so a run without a trap is
one of exact arithmetic.
-/

namespace NumberWords

/-- A natural number of 128 bits. -/
structure Word where
  val : Nat
  isLt : val < Numeral.magnitudeBound
deriving DecidableEq

inductive Trap where
  | overflow
  | underflow
  | zeroDivisor
  | outOfRange
deriving DecidableEq, Repr

inductive Stop where
  | trap (t : Trap)
  | fault (f : SpellFault)
deriving DecidableEq, Repr

abbrev Run := Except Stop

namespace Word

variable {a b : Word}

def literal (n : Nat) (h : n < Numeral.magnitudeBound := by decide) : Word := ⟨n, h⟩

def tenPow? (e : Nat) : Option Word :=
  if h : 10 ^ e < Numeral.magnitudeBound then some ⟨10 ^ e, h⟩ else none

def mul (a b : Word) : Run Word :=
  if h : a.val * b.val < Numeral.magnitudeBound then .ok ⟨a.val * b.val, h⟩
  else .error (.trap .overflow)

def sub (a b : Word) : Run Word :=
  if b.val ≤ a.val then .ok ⟨a.val - b.val, Nat.lt_of_le_of_lt (Nat.sub_le _ _) a.isLt⟩
  else .error (.trap .underflow)

def div (a b : Word) : Run Word :=
  if 0 < b.val then .ok ⟨a.val / b.val, Nat.lt_of_le_of_lt (Nat.div_le_self _ _) a.isLt⟩
  else .error (.trap .zeroDivisor)

def rem (a b : Word) : Run Word :=
  if 0 < b.val then .ok ⟨a.val % b.val, Nat.lt_of_le_of_lt (Nat.mod_le _ _) a.isLt⟩
  else .error (.trap .zeroDivisor)

theorem val_tenPow? (e : Nat) : (tenPow? e).map (·.val) = NumberWords.tenPow? e := by
  rw [tenPow?_eq, tenPow?]
  by_cases h : 10 ^ e < Numeral.magnitudeBound
  · rw [dif_pos h, if_pos h]
    rfl
  · rw [dif_neg h, if_neg h]
    rfl

theorem val_pos_of_tenPow? {e : Nat} {w : Word} (h : tenPow? e = some w) : 0 < w.val := by
  obtain ⟨_, hw⟩ := Option.dite_none_right_eq_some.1 h
  rw [← Option.some.inj hw]
  exact Nat.pow_pos (by decide)

end Word

def Run.Gives (x : Run Word) (n : Nat) : Prop := ∃ w : Word, x = .ok w ∧ w.val = n

namespace Word

variable {a b : Word}

theorem mul_gives (h : a.val * b.val < Numeral.magnitudeBound) :
    (a.mul b).Gives (a.val * b.val) :=
  ⟨⟨_, h⟩, dif_pos h, rfl⟩

theorem sub_gives (h : b.val ≤ a.val) : (a.sub b).Gives (a.val - b.val) :=
  ⟨⟨_, Nat.lt_of_le_of_lt (Nat.sub_le _ _) a.isLt⟩, if_pos h, rfl⟩

theorem div_gives (h : 0 < b.val) : (a.div b).Gives (a.val / b.val) :=
  ⟨⟨_, Nat.lt_of_le_of_lt (Nat.div_le_self _ _) a.isLt⟩, if_pos h, rfl⟩

theorem rem_gives (h : 0 < b.val) : (a.rem b).Gives (a.val % b.val) :=
  ⟨⟨_, Nat.lt_of_le_of_lt (Nat.mod_le _ _) a.isLt⟩, if_pos h, rfl⟩

end Word

/-! ## Places in lists -/

namespace Run

variable {α : Type} {xs : List α} {i : Nat}

def elementAt (xs : List α) (i : Nat) : Run α :=
  match xs[i]? with
  | some a => .ok a
  | none => .error (.trap .outOfRange)

def insertAt (xs : List α) (i : Nat) (a : α) : Run (List α) :=
  if i ≤ xs.length then .ok (xs.take i ++ a :: xs.drop i) else .error (.trap .outOfRange)

def changeBefore (xs : List α) (i : Nat) (g : α → α) : Run (List α) :=
  if i ≤ xs.length then .ok ((xs.take i).map g ++ xs.drop i) else .error (.trap .outOfRange)

theorem elementAt_of_getElem? {a : α} (h : xs[i]? = some a) : elementAt xs i = .ok a := by
  unfold elementAt
  rw [h]

theorem insertAt_of_le (h : i ≤ xs.length) (a : α) :
    insertAt xs i a = .ok (xs.take i ++ a :: xs.drop i) := if_pos h

theorem changeBefore_of_le (h : i ≤ xs.length) (g : α → α) :
    changeBefore xs i g = .ok ((xs.take i).map g ++ xs.drop i) := if_pos h

end Run
end NumberWords
