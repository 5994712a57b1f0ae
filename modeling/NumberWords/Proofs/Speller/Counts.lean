import NumberWords.Language.English
import NumberWords.Proofs.Speller.Walk

/-!
The counts of a walk against the number that is walked.

The counts are those of the number itself, each times its threshold is what the number has between
two thresholds, and together they lack exactly what lies below the first threshold.  So the counts
and the tail below one hundred make up the number exactly when the first threshold is one hundred
(`counts_make_up_number`).
-/

namespace NumberWords

open Fallible

namespace Speller

variable {s : Speller} {es : List Nat} {sub : Nested} {f : Frame} {tail : Bool} {n : Nat}

/-- The walk counts at each step what the whole number counts there. -/
theorem counts_of_visits (h : s.Scaled es) {vs : List Visit}
    (hv : s.visits sub f tail 0 s.units n = .ok vs) :
    vs.map (fun v => (v.step, v.count)) = s.scale.present.map fun st => (st, st.count n) := by
  rw [visits_eq h] at hv
  rw [← h.map_step_rungs, List.map_map]
  have hall := forall₂_of_mapM_eq_ok hv
  clear hv
  generalize s.rungs = rs at hall ⊢
  induction hall with
  | nil => rfl
  | cons hvisit _ ih =>
    obtain ⟨hstep, hcount⟩ := visit_eq_ok hvisit
    rw [List.map_cons, List.map_cons, ih, hstep, hcount]
    rfl

theorem threshold_first_eq_hundred (h : s.Scaled es)
    (hsum : ∀ n, 100 ≤ n → n < Numeral.magnitudeBound →
      (∀ last, s.scale.steps.getLast? = some (some last) →
        n < last.threshold * ScaleTable.lastDivisor) →
      (s.scale.present.map fun st => st.count n * st.threshold).sum + n % 100 = n) :
    (s.scale.step? 0).map (·.threshold) = some 100 := by
  have h100lt := h.lt_last_of_lt (n := 100) (by decide)
  have h110lt := h.lt_last_of_lt (n := 110) (by decide)
  have h100 := hsum 100 (by decide) (by decide) h100lt
  have h110 := hsum 110 (by decide) (by decide) h110lt
  cases hfirst : s.scale.step? 0 with
  | none =>
    have hhead := h.head?_present
    rw [hfirst, List.head?_eq_none_iff] at hhead
    rw [hhead] at h100
    cases h100
  | some first =>
    -- The parts of 100 and 110 below the first threshold single out one hundred.
    obtain ⟨last, hlast⟩ := h.exists_last hfirst
    have hmod100 := h.sum_count_add_mod 100 hfirst hlast
    have hmod110 := h.sum_count_add_mod 110 hfirst hlast
    rw [h.within_last hlast h100lt] at hmod100
    rw [h.within_last hlast h110lt] at hmod110
    have hstep := hfirst
    rw [ScaleTable.step?, Option.join_eq_some_iff, h.steps] at hstep
    obtain ⟨e, he, -, ht⟩ := ScaleTable.threshold_of_getElem? hstep
    have hpos := h.positive e (List.mem_of_getElem? he)
    rw [Option.map_some, Option.some.injEq, ht]
    rcases e with _ | _ | _ | e
    · omega
    · rw [ht, show 110 % 10 ^ (0 + 1) = 0 from rfl] at hmod110
      omega
    · rfl
    · have hle : 10 ^ 3 ≤ 10 ^ (e + 3) := Nat.pow_le_pow_right (by decide) (by omega)
      have hlt : 100 < 10 ^ (e + 3) := Nat.lt_of_lt_of_le (by decide) hle
      rw [ht, Nat.mod_eq_of_lt hlt] at hmod100
      omega

/-- At every unit that a walk comes to, the count is the quotient of the whole number by the
threshold, up to the divisor, whatever the chunks before have taken.  The counts and the tail make
up every number below the bound of the last unit exactly when the first threshold is one hundred. -/
theorem counts_make_up_number {d : Descriptor} (hd : d.validate = .ok ()) :
    ∃ s, d.speller = .ok s ∧
      (∀ levels f n position unit step rest remaining,
        s.Reaches (s.read levels) f n position ((unit, some step) :: rest) remaining →
          d.units.toList[position]? = some unit ∧ s.scale.step? position = some step ∧
          step.count remaining = match step.divisor with
            | some divisor => n / step.threshold % divisor
            | none => n / step.threshold) ∧
      (∀ levels f n vs, s.visits (s.read levels) f (n % 100 != 0) 0 s.units n = .ok vs →
        vs.map (fun v => (v.step, v.count)) = s.scale.present.map fun st => (st, st.count n)) ∧
      ((∀ n, 100 ≤ n → n < Numeral.magnitudeBound →
          (∀ last, s.scale.steps.getLast? = some (some last) →
            n < last.threshold * ScaleTable.lastDivisor) →
          (s.scale.present.map fun st => st.count n * st.threshold).sum + n % 100 = n) ↔
        (s.scale.step? 0).map (·.threshold) = some 100) := by
  obtain ⟨s, hs⟩ := d.exists_speller hd
  obtain ⟨rfl, es, h⟩ := scaled_of_speller hs
  refine ⟨s, hs, ?_, fun levels f n vs hv => counts_of_visits h hv, threshold_first_eq_hundred h,
    fun hfirst n _ _ hn => ?_⟩
  · intro levels f n position unit step rest remaining hreach
    have hdrop := hreach.units_eq_drop
    have hget : s.units[position]? = some (unit, some step) := by
      rw [← Nat.add_zero position, ← List.getElem?_drop, ← hdrop]
      rfl
    obtain ⟨hunit, hstep⟩ := List.getElem?_zip_eq_some.1 hget
    refine ⟨hunit, ?_, (hreach.settled h).count_eq⟩
    rw [ScaleTable.step?, hstep]
    rfl
  · obtain ⟨first, hfirst, ht⟩ := Option.map_eq_some_iff.1 hfirst
    obtain ⟨last, hlast⟩ := h.exists_last hfirst
    have hsum := h.sum_count_add_mod n hfirst hlast
    rwa [ht, h.within_last hlast hn] at hsum

/-- No lakh or crore is lost: the counts of the Indian units make up the number. -/
theorem indian_counts_make_up_number :
    Descriptor.indianEnglish.validate = .ok () ∧
      ∃ s, Descriptor.indianEnglish.speller = .ok s ∧
        (s.scale.present.map fun st => st.count 9876543210123 * st.threshold).sum
          + 9876543210123 % 100 = 9876543210123 := by
  have hd : Descriptor.indianEnglish.validate = .ok () := by decide
  obtain ⟨s, hs, -, -, hiff⟩ := counts_make_up_number hd
  have hscale : s.scale.steps = ScaleTable.stepsOf [2, 3, 5, 7] := by
    cases hs
    rfl
  have hfirst : (s.scale.step? 0).map (·.threshold) = some 100 := by
    rw [ScaleTable.step?, hscale]
    rfl
  refine ⟨hd, s, hs, hiff.2 hfirst _ (by decide) (by decide) fun last hlast => ?_⟩
  rw [hscale] at hlast
  cases hlast
  decide

end Speller
end NumberWords
