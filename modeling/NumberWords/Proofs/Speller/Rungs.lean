import NumberWords.Descriptor.Validity
import NumberWords.Proofs.Fallible
import NumberWords.Proofs.Scale.Ladder
import NumberWords.Speller

/-!
The units that a count can reach.

A descriptor with a scale gives a speller whose steps are those of ascending positive exponents,
one for each unit (`scaled_of_speller`).  Its rungs are the units whose threshold is a magnitude,
each with its position (`mem_rungs_iff`), and their steps form a ladder.
-/

namespace NumberWords

open Fallible

namespace Convention

theorem isSome_exponent? (c : Convention) {position : Nat} (h : position < positions) :
    (c.exponent? position).isSome = true := by
  unfold exponent?
  rw [if_neg (by omega)]
  match c, position with
  | .short, 0 | .short, 1 | .short, p + 2 => rfl
  | .long, 0 | .long, 1 | .long, p + 2 => rfl

theorem length_filterMap_exponent? (c : Convention) {k : Nat} (hk : k ≤ positions) :
    ((List.range k).filterMap c.exponent?).length = k := by
  rw [List.filterMap_length_eq_length.2, List.length_range]
  intro p hp
  exact c.isSome_exponent? (Nat.lt_of_lt_of_le (List.mem_range.1 hp) hk)

end Convention

namespace Descriptor

theorem length_exponents {d : Descriptor} {es : List Nat} (h : d.exponents = .ok es) :
    es ≠ [] ∧ es.length = d.units.toList.length := by
  unfold exponents at h
  cases hu : d.units with
  | ordered units =>
    simp only [hu] at h
    by_cases hempty : units.isEmpty = true
    · rw [if_pos hempty] at h
      cases h
    rw [if_neg hempty] at h
    by_cases hmany : Convention.positions < units.length
    · rw [if_pos hmany] at h
      cases h
    rw [if_neg hmany] at h
    cases h
    have hlength := d.convention.length_filterMap_exponent? (Nat.le_of_not_lt hmany)
    refine ⟨fun hnil => hempty ?_, hlength⟩
    rw [hnil] at hlength
    exact List.isEmpty_iff.2 (List.length_eq_zero_iff.1 hlength.symm)
  | byExponent words =>
    simp only [hu] at h
    by_cases hempty : words.isEmpty = true
    · rw [if_pos hempty] at h
      cases h
    rw [if_neg hempty] at h
    cases h
    refine ⟨fun hnil => hempty ?_, ?_⟩
    · rw [SortedMap.keys, List.map_eq_nil_iff, List.map_eq_nil_iff] at hnil
      exact List.isEmpty_iff.2 hnil
    · simp [SortedMap.keys, SortedMap.values, UnitSet.toList]

theorem speller_of_scale {d : Descriptor} {t : ScaleTable} (h : d.scale = .ok t) :
    d.speller = .ok { descriptor := d, scale := t } := by
  rw [speller, h]
  rfl

theorem exists_speller {d : Descriptor} (h : d.validate = .ok ()) : ∃ s, d.speller = .ok s := by
  obtain ⟨scale, hscale, -⟩ := bind_eq_ok.1 h
  exact ⟨_, speller_of_scale hscale⟩

end Descriptor

namespace Speller

/-- The last element with a property stands between those before it and others without it. -/
theorem exists_split_last {α : Type} {p : α → Prop} {l : List α} (h : ∃ a ∈ l, p a) :
    ∃ low top high, l = low ++ top :: high ∧ p top ∧ ∀ a ∈ high, ¬ p a := by
  induction l with
  | nil =>
    obtain ⟨a, ha, -⟩ := h
    cases ha
  | cons a l ih =>
    by_cases hl : ∃ b ∈ l, p b
    · obtain ⟨low, top, high, rfl, htop, hhigh⟩ := ih hl
      exact ⟨a :: low, top, high, rfl, htop, hhigh⟩
    · obtain ⟨b, hb, hp⟩ := h
      rcases List.mem_cons.1 hb with rfl | hmem
      · exact ⟨[], b, l, rfl, hp, fun c hc hpc => hl ⟨c, hc, hpc⟩⟩
      · exact absurd ⟨b, hmem, hp⟩ hl

/-- The table of `s` is that of the exponents of its units. -/
structure Scaled (s : Speller) (es : List Nat) : Prop where
  exponents : s.descriptor.exponents = .ok es
  steps : s.scale.steps = ScaleTable.stepsOf es
  positive : ∀ e ∈ es, 0 < e
  ascending : es.Pairwise (· < ·)

theorem Scaled.length {s : Speller} {es : List Nat} (h : s.Scaled es) :
    s.scale.steps.length = s.descriptor.units.toList.length := by
  rw [h.steps, ScaleTable.length_stepsOf, (Descriptor.length_exponents h.exponents).2]

theorem scaled_of_speller {d : Descriptor} {s : Speller} (h : d.speller = .ok s) :
    s.descriptor = d ∧ ∃ es, s.Scaled es := by
  obtain ⟨t, ht, hs⟩ := bind_eq_ok.1 h
  cases hs
  obtain ⟨es, hes, ht⟩ := bind_eq_ok.1 ht
  have hexponents : d.exponents = .ok es := mapError_eq_ok.1 hes
  have htable : ScaleTable.ofExponents es = .ok t := mapError_eq_ok.1 ht
  obtain ⟨hpos, hascend, rfl⟩ := ScaleTable.ofExponents_eq_ok_iff.1 htable
  exact ⟨rfl, es, { exponents := hexponents, steps := rfl, positive := hpos, ascending := hascend }⟩

/-! ## Rungs -/

structure Rung where
  position : Nat
  unit : ScaleUnit
  step : Step

/-- The units up to the first without a step. -/
def rungsFrom : Nat → List (ScaleUnit × Option Step) → List Rung
  | position, (unit, some step) :: rest => { position, unit, step } :: rungsFrom (position + 1) rest
  | _, (_, none) :: _ => []
  | _, [] => []

/-- The units that a count can reach, smallest first. -/
def rungs (s : Speller) : List Rung := rungsFrom 0 s.units

theorem not_mem_of_tapered {unit : ScaleUnit} {units : List (ScaleUnit × Option Step)}
    (h : (((unit, none) :: units).map (·.2)).Pairwise fun a b => a = none → b = none) :
    ∀ u ∈ units, u.2 = none := by
  intro u hu
  exact (List.pairwise_cons.1 h).1 u.2 (List.mem_map_of_mem hu) rfl

theorem map_step_rungsFrom {units : List (ScaleUnit × Option Step)}
    (h : (units.map (·.2)).Pairwise fun a b => a = none → b = none) (position : Nat) :
    (rungsFrom position units).map (·.step) = (units.map (·.2)).filterMap id := by
  induction units generalizing position with
  | nil => rfl
  | cons u rest ih =>
    obtain ⟨unit, step⟩ := u
    cases step with
    | none =>
      have hnone := not_mem_of_tapered h
      have hnil : (rest.map (·.2)).filterMap id = [] := by
        refine List.filterMap_eq_nil_iff.2 fun o ho => ?_
        obtain ⟨u, hu, rfl⟩ := List.mem_map.1 ho
        exact hnone u hu
      rw [rungsFrom, List.map_cons, List.filterMap_cons_none rfl, hnil, List.map_nil]
    | some step =>
      have hrest := ih (List.pairwise_cons.1 h).2 (position + 1)
      rw [rungsFrom, List.map_cons, hrest, List.map_cons]
      rfl

theorem mem_rungsFrom {units : List (ScaleUnit × Option Step)}
    (h : (units.map (·.2)).Pairwise fun a b => a = none → b = none) {position : Nat} {r : Rung} :
    r ∈ rungsFrom position units ↔
      ∃ i, r.position = position + i ∧ units[i]? = some (r.unit, some r.step) := by
  induction units generalizing position with
  | nil => simp [rungsFrom]
  | cons u rest ih =>
    obtain ⟨unit, step⟩ := u
    cases step with
    | none =>
      have hnone := not_mem_of_tapered h
      rw [rungsFrom]
      constructor
      · intro hr
        cases hr
      · rintro ⟨i, -, hi⟩
        cases i with
        | zero => cases hi
        | succ i =>
          have hstep := hnone _ (List.mem_of_getElem? hi)
          cases hstep
    | some step =>
      rw [rungsFrom, List.mem_cons, ih (List.pairwise_cons.1 h).2]
      constructor
      · rintro (rfl | ⟨i, hi, hget⟩)
        · exact ⟨0, rfl, rfl⟩
        · exact ⟨i + 1, by omega, hget⟩
      · rintro ⟨i, hi, hget⟩
        cases i with
        | zero =>
          refine .inl ?_
          cases r
          cases hget
          cases hi
          rfl
        | succ i => exact .inr ⟨i, by omega, hget⟩

namespace Scaled

variable {s : Speller} {es : List Nat}

theorem map_snd_units (h : s.Scaled es) : s.units.map (·.2) = s.scale.steps :=
  List.map_snd_zip (Nat.le_of_eq h.length)

theorem tapered (h : s.Scaled es) :
    (s.units.map (·.2)).Pairwise fun a b => a = none → b = none := by
  rw [h.map_snd_units, h.steps]
  exact ScaleTable.stepsOf_tapered h.ascending

theorem map_step_rungs (h : s.Scaled es) : s.rungs.map (·.step) = s.scale.present := by
  rw [rungs, map_step_rungsFrom h.tapered, h.map_snd_units]
  rfl

theorem mem_rungs_iff (h : s.Scaled es) {r : Rung} :
    r ∈ s.rungs ↔ s.descriptor.units.toList[r.position]? = some r.unit ∧
      s.scale.step? r.position = some r.step := by
  rw [rungs, mem_rungsFrom h.tapered]
  constructor
  · rintro ⟨i, hi, hget⟩
    obtain rfl : r.position = i := by omega
    obtain ⟨hunit, hstep⟩ := List.getElem?_zip_eq_some.1 hget
    refine ⟨hunit, ?_⟩
    rw [ScaleTable.step?, hstep]
    rfl
  · rintro ⟨hunit, hstep⟩
    refine ⟨r.position, (Nat.zero_add _).symm, List.getElem?_zip_eq_some.2 ⟨hunit, ?_⟩⟩
    rw [ScaleTable.step?] at hstep
    exact Option.join_eq_some_iff.1 hstep

theorem exists_exponent (h : s.Scaled es) {r : Rung} (hr : r ∈ s.rungs) :
    ∃ e, es[r.position]? = some e ∧ 0 < e ∧ e ≤ 38 ∧ r.step.threshold = 10 ^ e := by
  have hstep := (h.mem_rungs_iff.1 hr).2
  rw [ScaleTable.step?, Option.join_eq_some_iff, h.steps] at hstep
  obtain ⟨e, he, hle, ht⟩ := ScaleTable.threshold_of_getElem? hstep
  exact ⟨e, he, h.positive e (List.mem_of_getElem? he), hle, ht⟩

theorem threshold_pos (h : s.Scaled es) {r : Rung} (hr : r ∈ s.rungs) : 0 < r.step.threshold := by
  obtain ⟨e, -, -, -, ht⟩ := h.exists_exponent hr
  rw [ht]
  exact Nat.pow_pos (by decide)

theorem ten_le_threshold (h : s.Scaled es) {r : Rung} (hr : r ∈ s.rungs) :
    10 ≤ r.step.threshold := by
  obtain ⟨e, -, hpos, -, ht⟩ := h.exists_exponent hr
  rw [ht]
  exact Nat.le_self_pow hpos.ne' 10

theorem threshold_dvd (h : s.Scaled es) {r r' : Rung} (hr : r ∈ s.rungs) (hr' : r' ∈ s.rungs)
    (hle : r.step.threshold ≤ r'.step.threshold) : r.step.threshold ∣ r'.step.threshold := by
  obtain ⟨e, -, -, -, he⟩ := h.exists_exponent hr
  obtain ⟨e', -, -, -, he'⟩ := h.exists_exponent hr'
  rw [he, he'] at hle ⊢
  exact Nat.pow_dvd_pow 10 ((Nat.pow_le_pow_iff_right (by decide)).1 hle)

theorem divisor_pos (h : s.Scaled es) {r : Rung} (hr : r ∈ s.rungs) {d : Nat}
    (hd : r.step.divisor = some d) : 0 < d := by
  have hstep := (h.mem_rungs_iff.1 hr).2
  rw [ScaleTable.step?, Option.join_eq_some_iff, h.steps] at hstep
  exact ScaleTable.divisor_pos h.ascending (List.mem_of_getElem? hstep) hd

theorem isChain_rungs (h : s.Scaled es) :
    s.rungs.IsChain fun a b => Step.Leads a.step b.step := by
  have hchain := ScaleTable.isChain_present h.ascending
  rw [← h.steps, ← ScaleTable.present, ← h.map_step_rungs] at hchain
  exact (List.isChain_map _).1 hchain

theorem pairwise_rungs (h : s.Scaled es) :
    s.rungs.Pairwise fun a b => Step.Below a.step b.step := by
  have hchain : (s.rungs.map (·.step)).IsChain Step.Below :=
    (List.isChain_map _).2 (h.isChain_rungs.imp fun _ _ hab => hab.below)
  exact List.pairwise_map.1 hchain.pairwise

theorem head?_present (h : s.Scaled es) : s.scale.present.head? = s.scale.step? 0 := by
  rw [ScaleTable.present, ScaleTable.step?, h.steps]
  cases es with
  | nil => rfl
  | cons e es =>
    rcases Nat.lt_or_ge 38 e with hlt | hle
    · rw [ScaleTable.present_cons_of_lt h.ascending hlt, ScaleTable.stepsOf_cons_of_lt hlt]
      rfl
    · rw [ScaleTable.present_cons_of_le hle, ScaleTable.stepsOf_cons_of_le hle]
      rfl

theorem lt_last_of_lt (h : s.Scaled es) {n : Nat} (hn : n < ScaleTable.lastDivisor) :
    ∀ last, s.scale.steps.getLast? = some (some last) →
      n < last.threshold * ScaleTable.lastDivisor := by
  intro last hlast
  rw [h.steps, List.getLast?_eq_getElem?] at hlast
  obtain ⟨e, -, -, ht⟩ := ScaleTable.threshold_of_getElem? hlast
  have hpos : 0 < 10 ^ e := Nat.pow_pos (by decide)
  have hmul : 1 * ScaleTable.lastDivisor ≤ last.threshold * ScaleTable.lastDivisor :=
    Nat.mul_le_mul_right _ (by omega)
  omega

theorem exists_last (h : s.Scaled es) {first : Step} (hfirst : s.scale.step? 0 = some first) :
    ∃ last, s.scale.present.getLast? = some last := by
  have hhead := h.head?_present
  rw [hfirst] at hhead
  cases hlast : s.scale.present.getLast? with
  | none =>
    rw [List.getLast?_eq_none_iff.1 hlast] at hhead
    cases hhead
  | some last => exact ⟨last, rfl⟩

theorem within_last (h : s.Scaled es) {last : Step} (hlast : s.scale.present.getLast? = some last)
    {n : Nat} (hn : ∀ last, s.scale.steps.getLast? = some (some last) →
      n < last.threshold * ScaleTable.lastDivisor) : last.within n = n := by
  rw [h.steps] at hn
  rw [ScaleTable.present, h.steps] at hlast
  exact ScaleTable.within_getLast_present h.ascending hlast hn

/-- The counts and what lies below the first threshold make up what the last step tells. -/
theorem sum_count_add_mod (h : s.Scaled es) (n : Nat) {first last : Step}
    (hfirst : s.scale.step? 0 = some first) (hlast : s.scale.present.getLast? = some last) :
    (s.scale.present.map fun st => st.count n * st.threshold).sum + n % first.threshold
      = last.within n := by
  refine ScaleTable.sum_count_add_mod n ?_ (h.head?_present.trans hfirst) hlast
  rw [ScaleTable.present, h.steps]
  exact ScaleTable.isChain_present h.ascending

/-- The last step tells nothing of a number without counts and without a tail. -/
theorem within_eq_zero_iff (h : s.Scaled es)
    (hfirst : (s.scale.step? 0).map (·.threshold) = some 100) {last : Step}
    (hlast : s.scale.present.getLast? = some last) {n : Nat} :
    last.within n = 0 ↔ n % 100 = 0 ∧ ∀ r ∈ s.rungs, r.step.count n = 0 := by
  obtain ⟨first, hstep, ht⟩ := Option.map_eq_some_iff.1 hfirst
  have hsum := h.sum_count_add_mod n hstep hlast
  rw [ht] at hsum
  rw [← hsum, Nat.add_eq_zero_iff, List.sum_eq_zero_iff_forall_eq_nat, and_comm,
    ← h.map_step_rungs, List.map_map]
  refine and_congr_right fun _ => ⟨fun hzero r hr => ?_, fun hcounts x hx => ?_⟩
  · have hmul := hzero _ (List.mem_map_of_mem hr)
    exact (Nat.mul_eq_zero.1 hmul).resolve_right (Nat.ne_of_gt (h.threshold_pos hr))
  · obtain ⟨r, hr, rfl⟩ := List.mem_map.1 hx
    show r.step.count n * r.step.threshold = 0
    rw [hcounts r hr, Nat.zero_mul]

end Scaled
end Speller
end NumberWords
