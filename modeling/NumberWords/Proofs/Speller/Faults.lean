import NumberWords.Proofs.Language
import NumberWords.Proofs.Speller.Chunks
import NumberWords.Proofs.Speller.Levels
import NumberWords.Words

/-!
The faults of a spelling.

A step of reading has one fault of its own, a compound without a word; every other fault is that of
an inner number (`readStep_eq_error`).  By induction on the levels a missing word is always that of
some compound, and a reading runs out of levels only at a digit without a word.  The built-in
languages lack neither, so they spell every magnitude (`spell_faults`).
-/

namespace NumberWords
namespace Speller

open Fallible

/-- The number is a count of a compound unit, and the base has no word for it. -/
def LacksCompound (s : Speller) (n : Nat) : Prop :=
  ∃ position u step count,
    s.descriptor.units.toList[position]? = some (.inflected u) ∧ u.compound = true ∧
    s.scale.step? position = some step ∧ 1 ≤ count ∧
    (∀ divisor, step.divisor = some divisor → count < divisor) ∧
    n = count * step.threshold ∧ s.descriptor.base.word? n = none

/-- The base has no word, or an empty one, for some digit but zero. -/
def LacksDigit (s : Speller) : Prop :=
  ∃ digit, 1 ≤ digit ∧ digit ≤ 9 ∧ ∀ w, s.descriptor.base.word? digit = some w → w = ""

variable {s : Speller} {es : List Nat} {sub : Nested} {f : Frame} {n : Nat} {fault : SpellFault}

/-! ## One step -/

theorem rungChunk_eq_error (h : s.Scaled es) (hn : 100 ≤ n) {r : Rung} (hr : r ∈ s.rungs)
    (hcount : r.step.count n ≠ 0) (he : s.rungChunk sub f n r = .error fault) :
    (∃ m g, Inner n m ∧ sub m g = .error fault) ∨
      ∃ k, fault = .missingWord k ∧ k ≤ n ∧ s.LacksCompound k := by
  rcases s.unitChunk_cases sub f (n % 100 != 0) r.position r.unit r.step (r.step.count n) with
    hcounted | hbare | ⟨u, hu, hcompound, hexcept | ⟨w, -, hword⟩ | ⟨hnone, hmissing⟩⟩
  · rw [rungChunk, hcounted] at he
    exact .inl ⟨_, _, inner_count h hn hr, map_eq_error.1 he⟩
  · rw [rungChunk, hbare] at he
    cases he
  · rw [rungChunk, hexcept] at he
    cases he
  · rw [rungChunk, hword] at he
    cases he
  · rw [rungChunk, hmissing] at he
    cases he
    obtain ⟨hunit, hstep⟩ := h.mem_rungs_iff.1 hr
    refine .inr ⟨_, rfl, r.step.count_mul_le n, r.position, u, r.step, r.step.count n, hu ▸ hunit,
      hcompound, hstep, Nat.pos_of_ne_zero hcount, fun divisor hd => ?_, rfl,
      (Option.or_eq_none_iff.1 hnone).2⟩
    exact Step.count_lt_divisor hd (h.divisor_pos hr hd) n

/-- A step fails where an inner reading fails, or at a compound without a word. -/
theorem readStep_eq_error (h : s.Scaled es) (he : s.readStep sub n f = .error fault) :
    (∃ m g, Inner n m ∧ sub m g = .error fault) ∨
      ∃ k, fault = .missingWord k ∧ k ≤ n ∧ s.LacksCompound k := by
  cases hw : s.wholeWord? f n with
  | some w =>
    rw [readStep_of_word hw] at he
    cases he
  | none =>
    rcases Nat.lt_or_ge n 100 with hn | hn
    · rw [readStep_of_lt hw hn] at he
      by_cases h0 : n % 10 = 0
      · rw [readTens_of_zero h0] at he
        cases he
      · rw [readTens_of_ne_zero h0] at he
        exact .inl ⟨_, _, inner_digit n, map_eq_error.1 he⟩
    · rw [readStep_of_le hw hn] at he
      obtain ⟨k, hk⟩ := readSum_eq h sub f n
      rw [hk] at he
      rcases bind_eq_error.1 (map_eq_error.1 he) with htail | ⟨lowest, -, he⟩
      · by_cases h0 : n % 100 = 0
        · rw [tailChunks_eq_nil h0] at htail
          cases htail
        · rw [tailChunks_of_ne_zero h0] at htail
          exact .inl ⟨_, _, inner_tail hn, map_eq_error.1 htail⟩
      · rcases bind_eq_error.1 he with hover | ⟨higher, -, he⟩
        · obtain ⟨r, hr, hcount, hchunk⟩ := exists_rung_of_error hover
          exact rungChunk_eq_error h hn hr hcount hchunk
        · cases he

/-! ## All levels -/

theorem lacksCompound_of_read (h : s.Scaled es) {levels k : Nat}
    (he : s.read levels n f = .error (.missingWord k)) : k ≤ n ∧ s.LacksCompound k := by
  induction levels generalizing n f with
  | zero => cases he
  | succ levels ih =>
    rcases readStep_eq_error h he with ⟨m, g, hm, hsub⟩ | ⟨k', hk, hle, hlacks⟩
    · obtain ⟨hle, hlacks⟩ := ih hsub
      exact ⟨Nat.le_trans hle hm.1, hlacks⟩
    · cases hk
      exact ⟨hle, hlacks⟩

theorem lacksDigit_of_read (h : s.Scaled es) {levels : Nat} (hlevels : 1 ≤ levels)
    (hn : n < 10 ^ levels) (he : s.read levels n f = .error .tooDeep) : s.LacksDigit := by
  induction levels, hlevels using Nat.le_induction generalizing n f with
  | base =>
    have hlt : n < 10 := hn
    rw [read] at he
    cases hw : s.wholeWord? f n with
    | some w =>
      rw [readStep_of_word hw] at he
      cases he
    | none =>
      -- Zero is a whole ten, so it is no digit that a reading runs out of levels at.
      refine ⟨n, Nat.pos_of_ne_zero fun h0 => ?_, by omega, fun w => base_empty_of_wholeWord? hw⟩
      rw [readStep_of_lt hw (by omega), readTens_of_zero (by omega)] at he
      cases he
  | succ levels hlevels ih =>
    rcases readStep_eq_error h he with ⟨m, g, hm, hsub⟩ | ⟨k, hk, -⟩
    · exact ih (hm.lt_ten_pow hlevels hn) hsub
    · cases hk

/-! ## Built-in languages -/

theorem not_lacksDigit {l : Language} (hs : l.descriptor.speller = .ok s) : ¬ s.LacksDigit := by
  obtain ⟨hd, -⟩ := scaled_of_speller hs
  rintro ⟨digit, -, hle, hempty⟩
  obtain ⟨w, hw⟩ := Option.isSome_iff_exists.1 (l.digit_said digit (by omega))
  obtain ⟨lexicon, hlexicon, e, he, -, rfl⟩ := Descriptor.Has.of_word? List.mem_cons_self hw
  exact l.word_ne_empty lexicon hlexicon e he (hempty _ (hd ▸ hw))

theorem not_lacksCompound {l : Language} (hs : l.descriptor.speller = .ok s) (n : Nat) :
    ¬ s.LacksCompound n := by
  obtain ⟨-, es, h⟩ := scaled_of_speller hs
  rintro ⟨position, u, step, count, hunit, hcompound, hstep, hpos, hlt, rfl, hnone⟩
  have hcovers := Language.coversCounts hs ⟨position, .inflected u, step⟩
    (h.mem_rungs_iff.2 ⟨hunit, hstep⟩)
  simp only [ScaleUnit.coversCounts, hcompound, Bool.not_true, Bool.false_or] at hcovers
  cases hdivisor : step.divisor with
  | none =>
    rw [hdivisor] at hcovers
    cases hcovers
  | some divisor =>
    rw [hdivisor] at hcovers
    have hcount := List.all_eq_true.1 hcovers count (List.mem_range.2 (hlt divisor hdivisor))
    rw [hnone] at hcount
    have hne : count ≠ 0 := by omega
    simp [hne] at hcount

theorem exists_spell_of_builtIn {l : Language} (hs : l.descriptor.speller = .ok s)
    (hn : n < Numeral.magnitudeBound) : ∃ w, s.spell n f = .ok w := by
  obtain ⟨-, es, h⟩ := scaled_of_speller hs
  cases hspell : s.spell n f with
  | ok w => exact ⟨w, rfl⟩
  | error fault =>
    have hread := map_eq_error.1 hspell
    cases fault with
    | missingWord k => exact absurd (lacksCompound_of_read h hread).2 (not_lacksCompound hs k)
    | tooDeep =>
      exact absurd (lacksDigit_of_read h (by decide) (Nat.lt_trans hn (by decide)) hread)
        (not_lacksDigit hs)

/-- Under a valid descriptor a magnitude is spelled, or some compound up to it lacks its word, or
some digit lacks its word.  A built-in language spells every magnitude. -/
theorem spell_faults (n : Nat) (hn : n < Numeral.magnitudeBound) :
    (∀ o : Options, o.selection.descriptor.validate = .ok () →
      ∃ s, o.selection.descriptor.speller = .ok s ∧
        ((∃ w, o.spell n = .ok w) ∨
          (∃ k, o.spell n = .error (.spelling (.missingWord k)) ∧ k ≤ n ∧ s.LacksCompound k) ∨
          (o.spell n = .error (.spelling .tooDeep) ∧ s.LacksDigit))) ∧
      ∀ (l : Language) (o : Options), o.selection = .builtIn l → ∃ w, o.spell n = .ok w := by
  refine ⟨fun o hd => ?_, fun l o ho => ?_⟩
  · obtain ⟨s, hs⟩ := Descriptor.exists_speller hd
    obtain ⟨-, es, h⟩ := scaled_of_speller hs
    refine ⟨s, hs, ?_⟩
    rw [o.spell_eq hs]
    cases hspell : s.spell n o.toFrame with
    | ok w => exact .inl ⟨w, rfl⟩
    | error fault =>
      have hread := map_eq_error.1 hspell
      cases fault with
      | missingWord k => exact .inr (.inl ⟨k, rfl, lacksCompound_of_read h hread⟩)
      | tooDeep =>
        exact .inr (.inr
          ⟨rfl, lacksDigit_of_read h (by decide) (Nat.lt_trans hn (by decide)) hread⟩)
  · obtain ⟨s, hs⟩ := Descriptor.exists_speller l.validate_descriptor
    obtain ⟨w, hw⟩ := exists_spell_of_builtIn (f := o.toFrame) hs hn
    have hso : o.selection.descriptor.speller = .ok s := by
      rw [ho]
      exact hs
    exact ⟨w, by rw [o.spell_eq hso, hw]; rfl⟩

/-- Spanish with two words left: three hundred lacks its word, and one is still said. -/
theorem spanish_without_irregular_hundreds :
    let d := { Descriptor.spanish with base := { entries := [(1, "uno"), (100, "cien")] } }
    let o : Options := { selection := .custom d }
    d.validate = .ok () ∧ ∃ s, d.speller = .ok s ∧
      o.spell 300 = .error (.spelling (.missingWord 300)) ∧ s.LacksCompound 300 := by
  intro d o
  have hd : d.validate = .ok () := by decide
  have hmissing : o.spell 300 = .error (.spelling (.missingWord 300)) := by decide
  obtain ⟨s, hs, ⟨w, hw⟩ | ⟨k, hk, -, hlacks⟩ | ⟨hdeep, -⟩⟩ :=
    (spell_faults 300 (by decide)).1 o hd
  · rw [hmissing] at hw
    cases hw
  · rw [hmissing] at hk
    cases hk
    exact ⟨hd, s, hs, hmissing, hlacks⟩
  · rw [hmissing] at hdeep
    cases hdeep

end Speller
end NumberWords
