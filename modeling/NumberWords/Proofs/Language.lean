import NumberWords.Language
import NumberWords.Proofs.Speller.Lookup
import NumberWords.Proofs.Speller.Rungs

/-!
What the built-in languages have in common.

Each has a scale from one hundred on, a word for every digit, for every ten and for every count of
a compound unit, and no empty word.
-/

namespace NumberWords

namespace ScaleUnit

def isCompoundAt (position count : Nat) : ScaleUnit → Bool
  | .plain _ => false
  | .inflected u => u.compound && !u.exceptsCompound position count false

/-- The base has a word for every count that the unit says in one word. -/
def coversCounts (base : Lexicon) (step : Step) : ScaleUnit → Bool
  | .plain _ => true
  | .inflected u => !u.compound || match step.divisor with
    | some divisor =>
      (List.range divisor).all fun count =>
        count == 0 || (base.word? (count * step.threshold)).isSome
    | none => false

end ScaleUnit

namespace Language

/-- Where the counts of the last unit start again, if that is a magnitude. -/
def period? : Language → Option Nat
  | .indianEnglish => some (10 ^ 13)
  | .indonesian => some (10 ^ 21)
  | .vietnamese => some (10 ^ 24)
  | _ => none

theorem validate_descriptor (l : Language) : l.descriptor.validate = .ok () := by
  cases l <;> decide

theorem unit_word_ne_empty (l : Language) : ∀ unit ∈ l.descriptor.units.toList, unit.word ≠ "" := by
  cases l <;> decide

theorem exceptions_descriptor (l : Language) : l.descriptor.exceptions = SortedMap.empty := by
  cases l <;> rfl

theorem word_ne_empty (l : Language) :
    ∀ lexicon ∈ l.descriptor.lexicons, ∀ e ∈ lexicon.entries, e.2 ≠ "" := by
  cases l <;> decide

theorem hundreds (l : Language) : ∀ lexicon ∈ l.descriptor.lexicons, ∀ e ∈ lexicon.entries,
    100 ≤ e.1.toNat → e.1.toNat < 1000 ∧ e.1.toNat % 100 = 0 ∧
      l.descriptor.units.toList[0]?.any (·.isCompoundAt 0 (e.1.toNat / 100)) = true := by
  cases l <;> decide

theorem digit_said (l : Language) : ∀ digit < 10, (l.descriptor.base.word? digit).isSome := by
  cases l <;> decide

theorem ten_said (l : Language) : ∀ digit < 10, (l.descriptor.base.word? (digit * 10)).isSome := by
  cases l <;> decide

section

variable {l : Language} {s : Speller} (hs : l.descriptor.speller = .ok s)
include hs

theorem threshold_first : (s.scale.step? 0).map (·.threshold) = some 100 := by
  cases l <;> (cases hs; rfl)

theorem rung_below_thousand :
    ∀ r ∈ s.rungs, r.step.threshold < 1000 → r.position = 0 ∧ r.step.threshold = 100 := by
  cases l <;> (cases hs; decide)

theorem coversCounts : ∀ r ∈ s.rungs, r.unit.coversCounts s.descriptor.base r.step = true := by
  cases l <;> (cases hs; decide)

theorem period?_eq : ∀ last, s.scale.present.getLast? = some last →
    (last.divisor.map (last.threshold * ·)).filter (· < Numeral.magnitudeBound) = l.period? := by
  cases l <;> (cases hs; intro last hlast; cases hlast; decide +kernel)

end

/-- From one thousand on no number has a word of its own. -/
theorem wholeWord?_eq_none {l : Language} {s : Speller} (hs : l.descriptor.speller = .ok s)
    (f : Frame) {n : Nat} (hn : 1000 ≤ n) : s.wholeWord? f n = none := by
  obtain ⟨hd, -⟩ := Speller.scaled_of_speller hs
  cases hw : s.wholeWord? f n with
  | none => rfl
  | some w =>
    obtain ⟨lexicon, hlexicon, e, he, hkey, -⟩ := Speller.has_of_wholeWord? hw
    have hlt := (l.hundreds lexicon (hd ▸ hlexicon) e he (by omega)).1
    omega

theorem thousand_le_period (l : Language) : ∀ p ∈ l.period?, 1000 ≤ p := by
  cases l <;> decide

end Language
end NumberWords
