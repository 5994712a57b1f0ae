import NumberWords.Proofs.Speller.Chunks

/-!
How many levels a reading needs.

A step of reading asks for the readings of inner numbers: a digit, and from one hundred on the tail
and the counts, which have a digit less (`Asks.inner`).  So a number of so many digits needs no more
levels than digits, and more levels change nothing (`read_eq_of_le`): where a digit has no word, no
number of levels is enough.
-/

namespace NumberWords
namespace Speller

open Fallible

variable {s : Speller} {es : List Nat} {sub sub' : Nested} {f : Frame} {tail : Bool}
variable {n m : Nat}

/-! ## The cases of a step -/

theorem readStep_of_word {w : String} (hw : s.wholeWord? f n = some w) :
    s.readStep sub n f = .ok (.word w) := by
  unfold readStep
  rw [hw]

theorem readStep_of_lt (hw : s.wholeWord? f n = none) (hn : n < 100) :
    s.readStep sub n f = s.readTens sub n f := by
  unfold readStep
  rw [hw]
  exact if_pos hn

theorem readStep_of_le (hw : s.wholeWord? f n = none) (hn : 100 ≤ n) :
    s.readStep sub n f = s.readSum sub n f := by
  unfold readStep
  rw [hw]
  exact if_neg (Nat.not_lt.2 hn)

theorem readTens_of_zero (h : n % 10 = 0) :
    s.readTens sub n f = .ok (.word ((s.lexiconWord? f (n / 10 * 10)).getD "")) := by
  unfold readTens
  exact if_pos h

theorem readTens_of_ne_zero (h : n % 10 ≠ 0) :
    s.readTens sub n f
      = .tens ((s.lexiconWord? f (n / 10 * 10)).getD "") <$> sub (n % 10) f := by
  unfold readTens
  exact if_neg h

/-! ## Inner numbers -/

/-- What a reading of `n` may read in turn. -/
def Inner (n m : Nat) : Prop := m ≤ n ∧ (m < 10 ∨ 100 ≤ n ∧ (m < 100 ∨ 10 * m ≤ n))

theorem inner_digit (n : Nat) : Inner n (n % 10) :=
  ⟨Nat.mod_le n 10, .inl (Nat.mod_lt n (by decide))⟩

theorem inner_tail (hn : 100 ≤ n) : Inner n (n % 100) :=
  ⟨Nat.mod_le n 100, .inr ⟨hn, .inl (Nat.mod_lt n (by decide))⟩⟩

theorem inner_count (h : s.Scaled es) (hn : 100 ≤ n) {r : Rung} (hr : r ∈ s.rungs) :
    Inner n (r.step.count n) := by
  have hten := h.ten_le_threshold hr
  have hle := r.step.count_mul_le n
  have hmul : r.step.count n * 10 ≤ r.step.count n * r.step.threshold :=
    Nat.mul_le_mul_left _ hten
  exact ⟨by omega, .inr ⟨hn, .inr (by omega)⟩⟩

/-! ## What a step asks for -/

/-- A step of reading asks for the reading of another number: the digit, the tail, or a count that
does not stand alone in its unit. -/
inductive Asks (s : Speller) (n : Nat) (f : Frame) : Nat → Frame → Prop where
  | digit : s.wholeWord? f n = none → n < 100 → n % 10 ≠ 0 → Asks s n f (n % 10) f
  | tail : s.wholeWord? f n = none → 100 ≤ n → n % 100 ≠ 0 → Asks s n f (n % 100) f
  | count {r : Rung} : s.wholeWord? f n = none → 100 ≤ n → r ∈ s.rungs → r.step.count n ≠ 0 →
      r.unit.standsAlone (r.step.count n) = false →
      Asks s n f (r.step.count n) (s.countFrame r.unit)

theorem Asks.inner (h : s.Scaled es) {g : Frame} (hm : s.Asks n f m g) : Inner n m := by
  cases hm with
  | digit _ _ _ => exact inner_digit n
  | tail _ hn _ => exact inner_tail hn
  | count _ hn hr _ _ => exact inner_count h hn hr

theorem readTens_congr (hw : s.wholeWord? f n = none) (hn : n < 100)
    (hsub : ∀ m g, s.Asks n f m g → sub m g = sub' m g) :
    s.readTens sub n f = s.readTens sub' n f := by
  by_cases h0 : n % 10 = 0
  · rw [readTens_of_zero h0, readTens_of_zero h0]
  · rw [readTens_of_ne_zero h0, readTens_of_ne_zero h0, hsub _ _ (.digit hw hn h0)]

theorem tailChunks_congr (hw : s.wholeWord? f n = none) (hn : 100 ≤ n)
    (hsub : ∀ m g, s.Asks n f m g → sub m g = sub' m g) :
    s.tailChunks sub n f = s.tailChunks sub' n f := by
  by_cases h0 : n % 100 = 0
  · rw [tailChunks_eq_nil h0, tailChunks_eq_nil h0]
  · rw [tailChunks_of_ne_zero h0, tailChunks_of_ne_zero h0, hsub _ _ (.tail hw hn h0)]

theorem visit_congr_sub (hw : s.wholeWord? f n = none) (hn : 100 ≤ n)
    (hsub : ∀ m g, s.Asks n f m g → sub m g = sub' m g) {r : Rung} (hr : r ∈ s.rungs) :
    s.visit sub f tail r.position r.unit r.step n
      = s.visit sub' f tail r.position r.unit r.step n := by
  by_cases h0 : r.step.count n = 0
  · rw [visit_of_zero h0, visit_of_zero h0]
  · rw [visit_of_ne_zero h0, visit_of_ne_zero h0]
    cases halone : r.unit.standsAlone (r.step.count n) with
    | true => rw [unitChunk_of_standsAlone halone sub sub']
    | false =>
      rw [unitChunk_of_counted halone, unitChunk_of_counted halone,
        hsub _ _ (.count hw hn hr h0 halone)]

theorem readSum_congr (h : s.Scaled es) (hw : s.wholeWord? f n = none) (hn : 100 ≤ n)
    (hsub : ∀ m g, s.Asks n f m g → sub m g = sub' m g) :
    s.readSum sub n f = s.readSum sub' n f := by
  unfold readSum
  rw [tailChunks_congr hw hn hsub, visits_eq h, visits_eq h,
    mapM_congr fun r hr => visit_congr_sub hw hn hsub hr]

/-- A step of reading depends only on the readings that it asks for. -/
theorem readStep_congr_asks (h : s.Scaled es)
    (hsub : ∀ m g, s.Asks n f m g → sub m g = sub' m g) :
    s.readStep sub n f = s.readStep sub' n f := by
  cases hw : s.wholeWord? f n with
  | some w => rw [readStep_of_word hw, readStep_of_word hw]
  | none =>
    rcases Nat.lt_or_ge n 100 with hn | hn
    · rw [readStep_of_lt hw hn, readStep_of_lt hw hn, readTens_congr hw hn hsub]
    · rw [readStep_of_le hw hn, readStep_of_le hw hn, readSum_congr h hw hn hsub]

/-- A step of reading depends only on the readings of inner numbers. -/
theorem readStep_congr (h : s.Scaled es) (hsub : ∀ m g, Inner n m → sub m g = sub' m g) :
    s.readStep sub n f = s.readStep sub' n f :=
  readStep_congr_asks h fun m g hm => hsub m g (hm.inner h)

/-! ## Levels -/

/-- A digit without a word of its own is read as itself over again, to the last level. -/
theorem read_digit (hw : s.wholeWord? f n = none) (hpos : 0 < n) (hlt : n < 10) (levels : Nat) :
    s.read levels n f = .error .tooDeep := by
  induction levels with
  | zero => rfl
  | succ levels ih =>
    have hmod : n % 10 = n := Nat.mod_eq_of_lt hlt
    rw [read, readStep_of_lt hw (by omega), readTens_of_ne_zero (by omega), hmod, ih]
    rfl

theorem Inner.lt_ten_pow {levels : Nat} (hlevels : 1 ≤ levels) (hn : n < 10 ^ (levels + 1))
    (hm : Inner n m) : m < 10 ^ levels := by
  have hten : 10 ^ 1 ≤ 10 ^ levels := Nat.pow_le_pow_right (by decide) hlevels
  have hsucc : 10 ^ (levels + 1) = 10 ^ levels * 10 := Nat.pow_succ 10 levels
  rcases hm.2 with hdigit | ⟨hhundred, htail | hcount⟩
  · exact Nat.lt_of_lt_of_le hdigit hten
  · rcases Nat.lt_or_ge levels 2 with hlt | hge
    · obtain rfl : levels = 1 := by omega
      exact absurd hn (Nat.not_lt.2 hhundred)
    · have hhundred' : 10 ^ 2 ≤ 10 ^ levels := Nat.pow_le_pow_right (by decide) hge
      exact Nat.lt_of_lt_of_le htail hhundred'
  · omega

theorem read_succ (h : s.Scaled es) {levels : Nat} (hlevels : 1 ≤ levels)
    (hn : n < 10 ^ levels) : s.read (levels + 1) n f = s.read levels n f := by
  induction levels, hlevels using Nat.le_induction generalizing n f with
  | base =>
    cases hw : s.wholeWord? f n with
    | some w => rw [read, read, readStep_of_word hw, readStep_of_word hw]
    | none =>
      rcases Nat.eq_zero_or_pos n with rfl | hpos
      · rw [read, read, readStep_of_lt hw (by decide), readStep_of_lt hw (by decide)]
        rfl
      · rw [read_digit hw hpos hn, read_digit hw hpos hn]
  | succ levels hlevels ih =>
    exact readStep_congr h fun m g hm => ih (hm.lt_ten_pow hlevels hn)

/-- Levels beyond the number of digits change nothing. -/
theorem read_eq_of_le (h : s.Scaled es) {fewer more : Nat} (hpos : 1 ≤ fewer)
    (hle : fewer ≤ more) (hn : n < 10 ^ fewer) : s.read more n f = s.read fewer n f := by
  induction more, hle using Nat.le_induction with
  | base => rfl
  | succ more hle ih =>
    have hpow : 10 ^ fewer ≤ 10 ^ more := Nat.pow_le_pow_right (by decide) hle
    rw [read_succ h (Nat.le_trans hpos hle) (Nat.lt_of_lt_of_le hn hpow), ih]

/-- A magnitude has at most thirty-nine digits, so every level above is left over. -/
theorem read_magnitude (h : s.Scaled es) (hn : n < Numeral.magnitudeBound) {levels : Nat}
    (hlevels : 39 ≤ levels) : s.read levels n f = s.read 39 n f :=
  read_eq_of_le h (by decide) hlevels (Nat.lt_trans hn (by decide))

end Speller
end NumberWords
