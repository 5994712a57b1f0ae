import NumberWords.Proofs.Speller.Leftover
import NumberWords.Proofs.Speller.TopDown

/-!
Where the counts of the last unit start again.

The counts of the last unit start again after so many of its thresholds.  All units below count the
same from there on, and so the whole sum is the same (`readSum_mod_period`).  The period itself
has no words, and only the trailing part keeps the separator it has inside a larger number
(`spell_mod_period`).
-/

namespace NumberWords
namespace Speller

open Fallible

variable {s : Speller} {es : List Nat} {sub : Nested} {f : Frame} {n m : Nat} {last : Step}

/-! ## Counts -/

theorem Scaled.dvd_period (h : s.Scaled es) (hlast : s.scale.steps.getLast? = some (some last))
    {r : Rung} (hr : r ∈ s.rungs) :
    ∃ d, r.step.divisor = some d ∧
      r.step.threshold * d ∣ last.threshold * ScaleTable.lastDivisor := by
  obtain ⟨lower, hsteps⟩ := List.getLast?_eq_some_iff.1 hlast
  have hpresent : s.scale.present = lower.filterMap id ++ [last] := by
    rw [ScaleTable.present, hsteps, List.filterMap_append]
    rfl
  have hpairs := List.pairwise_map.2 h.pairwise_rungs
  have hmem := List.mem_map_of_mem (f := Rung.step) hr
  rw [h.map_step_rungs, hpresent] at hpairs hmem
  rcases List.mem_append.1 hmem with hlower | htop
  · obtain ⟨d, hd, -, hdvd⟩ := (List.pairwise_append.1 hpairs).2.2 r.step hlower last
      List.mem_cons_self
    exact ⟨d, hd, Nat.dvd_trans hdvd (Nat.dvd_mul_right _ _)⟩
  · rw [h.steps] at hlast
    rw [List.mem_singleton.1 htop]
    exact ⟨_, ScaleTable.divisor_getLast hlast, Nat.dvd_refl _⟩

theorem Scaled.count_mod_period (h : s.Scaled es)
    (hlast : s.scale.steps.getLast? = some (some last)) {r : Rung} (hr : r ∈ s.rungs) (n : Nat) :
    r.step.count (n % (last.threshold * ScaleTable.lastDivisor)) = r.step.count n := by
  obtain ⟨d, hd, hdvd⟩ := h.dvd_period hlast hr
  exact Step.count_mod_of_dvd hd hdvd n

theorem Scaled.exists_last_rung (h : s.Scaled es)
    (hlast : s.scale.steps.getLast? = some (some last)) : ∃ r ∈ s.rungs, r.step = last := by
  rw [List.getLast?_eq_getElem?] at hlast
  exact h.exists_rung_of_step? (Option.join_eq_some_iff.2 hlast)

theorem Scaled.hundred_dvd_of_two_le (h : s.Scaled es) (htwo : ∀ e ∈ es, 2 ≤ e) {r : Rung}
    (hr : r ∈ s.rungs) : 100 ∣ r.step.threshold := by
  obtain ⟨e, he, -, -, ht⟩ := h.exists_exponent hr
  rw [ht]
  exact Nat.pow_dvd_pow 10 (htwo e (List.mem_of_getElem? he))

theorem Scaled.hundred_dvd_period (h : s.Scaled es) (htwo : ∀ e ∈ es, 2 ≤ e)
    (hlast : s.scale.steps.getLast? = some (some last)) :
    100 ∣ last.threshold * ScaleTable.lastDivisor := by
  obtain ⟨r, hr, rfl⟩ := h.exists_last_rung hlast
  exact Nat.dvd_trans (h.hundred_dvd_of_two_le htwo hr) (Nat.dvd_mul_right _ _)

/-! ## Sums -/

theorem visits_congr_counts (h : s.Scaled es) {tail : Bool}
    (hcount : ∀ r ∈ s.rungs, r.step.count m = r.step.count n) :
    s.visits sub f tail 0 s.units m = s.visits sub f tail 0 s.units n := by
  rw [visits_eq h, visits_eq h, mapM_congr fun r hr => visit_congr (hcount r hr)]

/-- The part of a number below the period is the same sum. -/
theorem readSum_mod_period (h : s.Scaled es) (htwo : ∀ e ∈ es, 2 ≤ e)
    (hlast : s.scale.steps.getLast? = some (some last)) :
    s.readSum sub (n % (last.threshold * ScaleTable.lastDivisor)) f = s.readSum sub n f := by
  have hcount := fun r hr => h.count_mod_period hlast (r := r) hr n
  have htail := Nat.mod_mod_of_dvd n (h.hundred_dvd_period htwo hlast)
  obtain ⟨first, hfirst⟩ : ∃ first, s.scale.step? 0 = some first := by
    obtain ⟨r, hr, -⟩ := h.exists_last_rung hlast
    have hmem := List.mem_map_of_mem (f := Rung.step) hr
    rw [h.map_step_rungs] at hmem
    rw [← h.head?_present]
    exact Option.isSome_iff_exists.1 (List.isSome_head?.2 (List.ne_nil_of_mem hmem))
  have hmod : n % (last.threshold * ScaleTable.lastDivisor) % first.threshold
      = n % first.threshold := by
    obtain ⟨r, hr, rfl⟩ := h.exists_rung_of_step? hfirst
    obtain ⟨d, -, hdvd⟩ := h.dvd_period hlast hr
    exact Nat.mod_mod_of_dvd n (Nat.dvd_trans (Nat.dvd_mul_right _ d) hdvd)
  have hlowest : s.tailChunks sub (n % (last.threshold * ScaleTable.lastDivisor)) f
      = s.tailChunks sub n f := by
    rw [tailChunks, tailChunks, htail]
  unfold readSum
  rw [hlowest, htail, visits_congr_counts h hcount]
  cases s.tailChunks sub n f with
  | error fault => rfl
  | ok lowest =>
    cases hvs : s.visits sub f (n % 100 != 0) 0 s.units n with
    | error fault => rfl
    | ok vs =>
      have hvs' := (visits_congr_counts h hcount).trans hvs
      have hleftover := leftover_congr h hfirst hvs' hvs hmod
      exact congrArg (fun k => Except.ok (Reading.sum (s.conjoin k _))) hleftover

/-- Without counts only the tail is said. -/
theorem readSum_of_counts_zero (h : s.Scaled es) (hcount : ∀ r ∈ s.rungs, r.step.count n = 0) :
    s.readSum sub n f = .sum <$> s.tailChunks sub n f := by
  have hover : s.chunksOver sub f n s.rungs = .ok [] := chunksOver_eq_nil hcount
  obtain ⟨vs, hvs, hnil⟩ := map_eq_ok.1 hover
  rw [← visits_eq h] at hvs
  have hzero : ∀ v ∈ vs, v.count = 0 := by
    intro v hv
    have hstep := List.mem_map_of_mem (f := Visit.step) hv
    rw [map_step_of_visits h hvs, ← h.map_step_rungs] at hstep
    obtain ⟨r, hr, hr'⟩ := List.mem_map.1 hstep
    rw [count_of_mem_visits h hvs v hv, ← hr', hcount r hr]
  unfold readSum
  rw [hvs]
  cases s.tailChunks sub n f with
  | error fault => rfl
  | ok lowest =>
    show Except.ok (Reading.sum (s.conjoin (leftover n vs) (lowest ++ vs.filterMap (·.chunk)))) = _
    rw [leftover_eq_zero hzero, conjoin_zero, hnil, List.append_nil]
    rfl

/-- Below one hundred nothing is counted. -/
theorem readSum_of_lt_hundred (h : s.Scaled es) (htwo : ∀ e ∈ es, 2 ≤ e) (hn : n < 100) :
    s.readSum sub n f = .sum <$> s.tailChunks sub n f := by
  refine readSum_of_counts_zero h fun r hr => Step.count_of_lt ?_
  have hle := Nat.le_of_dvd (h.threshold_pos hr) (h.hundred_dvd_of_two_le htwo hr)
  omega

/-- A sum that is only a tail has the words of the tail, with the separator of one. -/
theorem text_readSum_of_lt_hundred (h : s.Scaled es) (htwo : ∀ e ∈ es, 2 ≤ e) (hpos : 0 < n)
    (hn : n < 100) :
    Reading.text s.descriptor <$> s.readSum (s.read deepestLevel) n f =
      ((if s.separatesTail f then s.descriptor.tailSeparator else "") ++ ·) <$> s.spell n f := by
  have hmod : n % 100 = n := Nat.mod_eq_of_lt hn
  rw [readSum_of_lt_hundred h htwo hn, tailChunks_of_ne_zero (by omega), hmod,
    spell_eq_read h (Nat.lt_trans hn (by decide))]
  cases s.read deepestLevel n f with
  | error fault => rfl
  | ok r =>
    show Except.ok (Chunk.text s.descriptor (.tail (s.separatesTail f) r)) = _
    rw [Chunk.text]
    cases s.separatesTail f with
    | false => exact congrArg Except.ok String.empty_append.symm
    | true => rfl

/-! ## The law -/

theorem Scaled.hundred_le_period (h : s.Scaled es) (htwo : ∀ e ∈ es, 2 ≤ e)
    (hlast : s.scale.steps.getLast? = some (some last)) :
    100 ≤ last.threshold * ScaleTable.lastDivisor := by
  obtain ⟨r, hr, rfl⟩ := h.exists_last_rung hlast
  have hpos := Nat.mul_pos (h.threshold_pos hr) (show 0 < ScaleTable.lastDivisor by decide)
  exact Nat.le_of_dvd hpos (h.hundred_dvd_period htwo hlast)

theorem wholeWord?_eq_none_of_keys
    (hkeys : ∀ lexicon ∈ s.descriptor.lexicons, ∀ e ∈ lexicon.entries, e.1.toNat < 100)
    (hn : 100 ≤ n) : s.wholeWord? f n = none := by
  cases hw : s.wholeWord? f n with
  | none => rfl
  | some w =>
    obtain ⟨lexicon, hlexicon, e, he, hkey, -⟩ := has_of_wholeWord? hw
    have hlt := hkeys lexicon hlexicon e he
    omega

theorem spell_eq_readSum
    (hkeys : ∀ lexicon ∈ s.descriptor.lexicons, ∀ e ∈ lexicon.entries, e.1.toNat < 100)
    (hn : 100 ≤ n) :
    s.spell n f = Reading.text s.descriptor <$> s.readSum (s.read deepestLevel) n f := by
  rw [spell, read, readStep_of_le (wholeWord?_eq_none_of_keys hkeys hn) hn]

/-- From the period of the last unit on a number has the words of what is left over by the period.
A rest below one hundred is still a tail, with the separator of one, and there are no words for a
multiple of the period. -/
theorem spell_mod_period {o : Options} {s : Speller}
    (hs : o.selection.descriptor.speller = .ok s) {es : List Nat}
    (hes : s.descriptor.exponents = .ok es) (htwo : ∀ e ∈ es, 2 ≤ e)
    (hkeys : ∀ lexicon ∈ s.descriptor.lexicons, ∀ e ∈ lexicon.entries, e.1.toNat < 100)
    {last : Step} (hlast : s.scale.steps.getLast? = some (some last)) {n : Nat}
    (hn : last.threshold * ScaleTable.lastDivisor ≤ n) :
    let rest := n % (last.threshold * ScaleTable.lastDivisor)
    let separator := if o.noAnd && !s.descriptor.keepsAnd then "" else s.descriptor.tailSeparator
    (100 ≤ rest → o.spell n = o.spell rest) ∧
      (0 < rest → rest < 100 → o.spell n = (separator ++ ·) <$> o.spell rest) ∧
      (rest = 0 → o.spell n = .ok "") := by
  obtain ⟨-, es', h⟩ := scaled_of_speller hs
  obtain rfl : es' = es := Except.ok.inj (h.exponents.symm.trans hes)
  intro rest separator
  have hhundred : 100 ≤ n := Nat.le_trans (h.hundred_le_period htwo hlast) hn
  have hread : s.spell n o.toFrame = Reading.text s.descriptor <$>
      s.readSum (s.read deepestLevel) rest o.toFrame := by
    rw [spell_eq_readSum hkeys hhundred, ← readSum_mod_period h htwo hlast]
  refine ⟨fun hle => ?_, fun hpos hlt => ?_, fun hzero => ?_⟩
  · rw [o.spell_eq hs, o.spell_eq hs, hread, spell_eq_readSum hkeys hle]
  · have hseparator : (if s.separatesTail o.toFrame then s.descriptor.tailSeparator else "")
        = separator := by
      unfold separatesTail separator
      cases o.noAnd <;> cases s.descriptor.keepsAnd <;> rfl
    rw [o.spell_eq hs, o.spell_eq hs, hread, text_readSum_of_lt_hundred h htwo hpos hlt, hseparator]
    cases s.spell rest o.toFrame <;> rfl
  · rw [o.spell_eq hs, hread, readSum_of_lt_hundred h htwo (by omega),
      tailChunks_eq_nil (by omega)]
    rfl

/-- In Indian English, ten million million and one has the words of the one behind nothing. -/
theorem indian_period_and_one :
    ∃ s, Descriptor.indianEnglish.speller = .ok s ∧
      ({ selection := .builtIn .indianEnglish } : Options).spell (10 ^ 13 + 1) = .ok "and one" := by
  obtain ⟨s, hs⟩ := Descriptor.exists_speller Language.indianEnglish.validate_descriptor
  have hes : s.descriptor.exponents = .ok [2, 3, 5, 7] := by
    cases hs
    rfl
  have hkeys : ∀ lexicon ∈ s.descriptor.lexicons, ∀ e ∈ lexicon.entries, e.1.toNat < 100 := by
    cases hs
    decide
  have hlast : s.scale.steps.getLast?
      = some (some { threshold := 10 ^ 7, divisor := some ScaleTable.lastDivisor }) := by
    cases hs
    rfl
  have hone : ({ selection := .builtIn .indianEnglish } : Options).spell 1 = .ok "one" := by decide
  have hand : s.descriptor.tailSeparator = "and " := by
    cases hs
    rfl
  have htail := (spell_mod_period (o := { selection := .builtIn .indianEnglish }) hs hes (by decide)
    hkeys hlast (n := 10 ^ 13 + 1) (by decide)).2.1
  rw [show (10 ^ 13 + 1) % (10 ^ 7 * ScaleTable.lastDivisor) = 1 by decide, hone, hand] at htail
  exact ⟨s, hs, htail (by decide) (by decide)⟩

end Speller
end NumberWords
