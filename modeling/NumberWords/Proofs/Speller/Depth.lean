import NumberWords.Proofs.Speller.Faults

/-!
How deep a reading goes.

The readings inside a reading are those that its steps ask for (`ReadAt`), and no other reading can
change it (`readOver_congr`).  Each step asks only for numbers with a digit less, so where every
digit has a word the readings go no deeper than the digits of the number (`ReadAt.level_le`).  The
deepest level is far below the thirty-nine digits of a magnitude, and only a digit without a word
comes to it (`spell_depth`).
-/

namespace NumberWords
namespace Speller

/-- Reading `n` comes, so many levels down, to reading `m`. -/
inductive ReadAt (s : Speller) : Nat → Nat → Frame → Nat → Frame → Prop where
  | here {n : Nat} {f : Frame} : ReadAt s 0 n f n f
  | inside {level n k m : Nat} {f g e : Frame} :
      s.Asks n f k g → ReadAt s level k g m e → ReadAt s (level + 1) n f m e

/-- Read with so many levels, and below them in any other way. -/
def readOver (s : Speller) (below : Nested) : Nat → Nested
  | 0 => below
  | levels + 1 => s.readStep (s.readOver below levels)

variable {s : Speller} {es : List Nat} {below below' : Nested} {f g : Frame} {n m level : Nat}

theorem readOver_read (s : Speller) (more levels : Nat) :
    s.readOver (s.read more) levels = s.read (more + levels) := by
  induction levels with
  | zero => rfl
  | succ levels ih =>
    funext n f
    rw [readOver, ih]
    rfl

/-- What lies below matters only at the numbers that the reading comes to there. -/
theorem readOver_congr (h : s.Scaled es) {levels : Nat}
    (hbelow : ∀ m g, s.ReadAt levels n f m g → below m g = below' m g) :
    s.readOver below levels n f = s.readOver below' levels n f := by
  induction levels generalizing n f with
  | zero => exact hbelow n f .here
  | succ levels ih =>
    apply readStep_congr_asks h
    intro k e hk
    exact ih fun m g hm => hbelow m g (.inside hk hm)

/-- Every digit but zero has a word in the base, and not the empty one. -/
def SaysDigits (s : Speller) : Prop :=
  ∀ digit, 1 ≤ digit → digit ≤ 9 → ∃ w, s.descriptor.base.word? digit = some w ∧ w ≠ ""

theorem SaysDigits.wholeWord?_ne_none (hs : s.SaysDigits) (hpos : 1 ≤ n) (hlt : n < 10) :
    s.wholeWord? f n ≠ none := by
  obtain ⟨w, hw, hne⟩ := hs n hpos (by omega)
  intro hnone
  exact hne (base_empty_of_wholeWord? hnone hw)

/-- A number of one digit asks for nothing. -/
theorem SaysDigits.not_asks (hs : s.SaysDigits) (hn : n < 10) : ¬ s.Asks n f m g := by
  intro hm
  cases hm with
  | digit hw _ h0 => exact hs.wholeWord?_ne_none (by omega) hn hw
  | tail _ hle _ => omega
  | count _ hle _ _ _ => omega

/-- The readings inside a number lie less deep than it has digits. -/
theorem ReadAt.level_le (h : s.Scaled es) (hs : s.SaysDigits) (hm : s.ReadAt level n f m g)
    {bound : Nat} (hn : n < 10 ^ (bound + 1)) : level ≤ bound := by
  induction hm generalizing bound with
  | here => exact Nat.zero_le bound
  | inside hk _ ih =>
    cases bound with
    | zero => exact absurd hk (hs.not_asks hn)
    | succ bound =>
      have hlt := (hk.inner h).lt_ten_pow (Nat.le_add_left 1 bound) hn
      exact Nat.succ_le_succ (ih hlt)

theorem not_lacksDigit_of_saysDigits (hs : s.SaysDigits) : ¬ s.LacksDigit := by
  rintro ⟨digit, hpos, hle, hempty⟩
  obtain ⟨w, hw, hne⟩ := hs digit hpos hle
  exact hne (hempty w hw)

/-- Where every digit has a word, the readings inside a magnitude go down thirty-eight levels at the
most: whatever would be read deeper, the reading is the same, and no spelling stops at the deepest
level.  A digit that no lexicon in force has a word for stops there. -/
theorem spell_depth {d : Descriptor} (hd : d.validate = .ok ()) :
    ∃ s, d.speller = .ok s ∧
      ((∀ digit, 1 ≤ digit → digit ≤ 9 → ∃ w, d.base.word? digit = some w ∧ w ≠ "") →
        ∀ f n, n < Numeral.magnitudeBound →
          (∀ level m g, s.ReadAt level n f m g → level ≤ 38) ∧
          (∀ below, s.readOver below 39 n f = s.read (deepestLevel + 1) n f) ∧
          s.spell n f ≠ .error .tooDeep) ∧
      ∀ digit f, 1 ≤ digit → digit ≤ 9 →
        (∀ w, d.base.word? digit = some w → w = "") →
        d.exceptions.word? digit = none →
        (∀ l, s.alternative? f = some l → l.word? digit = none) →
          s.spell digit f = .error .tooDeep := by
  obtain ⟨s, hs⟩ := d.exists_speller hd
  obtain ⟨rfl, es, h⟩ := scaled_of_speller hs
  refine ⟨s, hs, fun hdigits f n hn => ?_, fun digit f hpos hle hbase hexc halt => ?_⟩
  · have hlt : n < 10 ^ 39 := Nat.lt_trans hn (by decide)
    have hdepth : ∀ level m g, s.ReadAt level n f m g → level ≤ 38 :=
      fun level m g hm => hm.level_le h hdigits hlt
    refine ⟨hdepth, fun below => ?_, fun hdeep => ?_⟩
    · show s.readOver below 39 n f = s.read (26 + 39) n f
      rw [← readOver_read]
      apply readOver_congr h
      intro m g hm
      have hle := hdepth 39 m g hm
      omega
    · have hread := Fallible.map_eq_error.1 hdeep
      exact not_lacksDigit_of_saysDigits hdigits
        (lacksDigit_of_read h (by decide) (Nat.lt_trans hn (by decide)) hread)
  · have hw := wholeWord?_eq_none hexc halt hbase
    rw [spell, read_digit hw hpos (by omega)]
    rfl

/-- A ten whose counts have no bound takes one digit at each level, so thirty-nine ones are read
down to the thirty-eighth level. -/
theorem ones_read_to_last_digit :
    let digits : Lexicon :=
      { entries := [(1, "one"), (2, "two"), (3, "three"), (4, "four"), (5, "five"), (6, "six"),
          (7, "seven"), (8, "eight"), (9, "nine")] }
    let units : UnitSet := .byExponent { entries := [(1, "ten"), (39, "beyond")] }
    let d : Descriptor := { base := digits, units }
    let twos : Descriptor := { base := { entries := [(2, "two")] }, units }
    let ones := (10 ^ 39 - 1) / 9
    (d.validate = .ok () ∧ ∃ s, d.speller = .ok s ∧
      (s.readOver (fun _ _ => .error .tooDeep) 38 ones {}).isOk = false ∧
      s.readOver (fun _ _ => .error .tooDeep) 39 ones {} = s.read (deepestLevel + 1) ones {} ∧
      s.spell ones {} ≠ .error .tooDeep) ∧
    twos.validate = .ok () ∧ ∃ s, twos.speller = .ok s ∧ s.spell 1 {} = .error .tooDeep := by
  intro digits units d twos ones
  have hd : d.validate = .ok () := by decide
  have htwos : twos.validate = .ok () := by decide
  obtain ⟨s, hs, hsound, -⟩ := spell_depth hd
  obtain ⟨s', hs', -, hlacking⟩ := spell_depth htwos
  have hdigits : ∀ digit, 1 ≤ digit → digit ≤ 9 → ∃ w, d.base.word? digit = some w ∧ w ≠ "" := by
    intro digit hpos hle
    have hall : ∀ i < 9, ∃ w ∈ d.base.word? (i + 1), w ≠ "" := by decide
    have hdigit := hall (digit - 1) (by omega)
    rwa [Nat.sub_add_cancel hpos] at hdigit
  obtain ⟨-, hover, hspell⟩ := hsound hdigits {} ones (by decide)
  have hreached : (s.readOver (fun _ _ => .error .tooDeep) 38 ones {}).isOk = false := by
    cases hs
    decide +kernel
  have hdeep : s'.spell 1 {} = .error .tooDeep :=
    hlacking 1 {} (by decide) (by decide) (fun w hw => nomatch hw) rfl (fun l hl => nomatch hl)
  exact ⟨⟨hd, s, hs, hreached, hover _, hspell⟩, htwos, s', hs', hdeep⟩

end Speller
end NumberWords
