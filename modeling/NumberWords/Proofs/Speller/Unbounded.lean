import NumberWords.Proofs.Speller.Levels

/-!
Spelling with every threshold there is.

A table keeps no threshold that is not a magnitude, and no divisor below an absent one.  Neither
changes a reading: a magnitude counts nothing from such a threshold on, and below it the quotient is
smaller than the divisor.  So the reading of a magnitude is that over the table in which each power
of ten is a threshold and each quotient of two a divisor (`read_unbounded`).
-/

namespace NumberWords

open Fallible

namespace ScaleTable

/-- The quotient that leads from a power of ten to the next one. -/
def trueDivisor (e : Nat) : List Nat → Nat
  | [] => lastDivisor
  | e' :: _ => 10 ^ (e' - e)

/-- The step of an exponent below others, with no bound on its threshold. -/
def trueStep (e : Nat) (es : List Nat) : Step :=
  { threshold := 10 ^ e, divisor := some (trueDivisor e es) }

def trueSteps : List Nat → List Step
  | [] => []
  | e :: es => trueStep e es :: trueSteps es

theorem ten_pow_div_ten_pow {e e' : Nat} (h : e < e') : 10 ^ e' / 10 ^ e = 10 ^ (e' - e) :=
  Nat.pow_div (Nat.le_of_lt h) (by decide)

theorem lt_ten_pow_of_magnitude {n e : Nat} (hn : n < Numeral.magnitudeBound) (he : 38 < e) :
    n < 10 ^ e := by
  have hbound : Numeral.magnitudeBound ≤ 10 ^ 39 := by decide
  have hle : 10 ^ 39 ≤ 10 ^ e := Nat.pow_le_pow_right (by decide) he
  omega

/-- A magnitude has the same count with the true divisor. -/
theorem count_trueStep {e : Nat} {es : List Nat} (h : (e :: es).Pairwise (· < ·)) {n : Nat}
    (hn : n < Numeral.magnitudeBound) :
    (trueStep e es).count n
      = Step.count { threshold := 10 ^ e, divisor := divisorBelow (10 ^ e) es } n := by
  cases es with
  | nil => rfl
  | cons e' rest =>
    have hlt : e < e' := (List.pairwise_cons.1 h).1 e' List.mem_cons_self
    by_cases he' : e' ≤ 38
    · have hdivisor : divisorBelow (10 ^ e) (e' :: rest) = some (10 ^ e' / 10 ^ e) := by
        show (tenPow? e').map (· / 10 ^ e) = _
        rw [tenPow?, if_pos he']
        rfl
      rw [hdivisor, ten_pow_div_ten_pow hlt]
      rfl
    · have hdivisor : divisorBelow (10 ^ e) (e' :: rest) = none := by
        show (tenPow? e').map (· / 10 ^ e) = _
        rw [tenPow?, if_neg he']
        rfl
      have hn' : n < 10 ^ e * 10 ^ (e' - e) := by
        rw [← ten_pow_div_ten_pow hlt, ten_pow_mul_div_of_lt hlt]
        exact lt_ten_pow_of_magnitude hn (by omega)
      rw [hdivisor]
      show n / 10 ^ e % 10 ^ (e' - e) = n / 10 ^ e
      exact Nat.mod_eq_of_lt (Nat.div_lt_of_lt_mul hn')

end ScaleTable

structure Visit.Same (v' v : Visit) : Prop where
  count : v'.count = v.count
  chunk : v'.chunk = v.chunk
  threshold : v'.step.threshold = v.step.threshold

theorem Visit.Same.spent {v' v : Visit} (h : v'.Same v) : v'.spent = v.spent := by
  unfold Visit.spent
  rw [h.chunk, h.count, h.threshold]

namespace Speller

structure SameSum (vs' vs : List Visit) : Prop where
  chunks : vs'.filterMap (·.chunk) = vs.filterMap (·.chunk)
  spent : Speller.spent vs' = Speller.spent vs
  lead : leadThreshold? vs' = leadThreshold? vs

def unbounded (s : Speller) (es : List Nat) : Speller :=
  { s with scale := { steps := (ScaleTable.trueSteps es).map some } }

variable {s : Speller} {es : List Nat} {sub sub' : Nested} {f : Frame} {tail : Bool}
variable {n position remaining : Nat} {unit : ScaleUnit} {step step' : Step}
variable {units : List ScaleUnit}

theorem leadThreshold?_cons (v : Visit) (vs : List Visit) :
    leadThreshold? (v :: vs) =
      (leadThreshold? vs).or (if v.count = 0 then none else some v.step.threshold) := by
  unfold leadThreshold?
  by_cases h0 : v.count = 0
  · rw [List.filter_cons_of_neg (by simpa using h0), if_pos h0, Option.or_none]
  · rw [List.filter_cons_of_pos (by simpa using h0), if_neg h0, List.getLast?_cons]
    cases (vs.filter (·.count != 0)).getLast? <;> rfl

theorem SameSum.cons {v' v : Visit} {vs' vs : List Visit} (hv : v'.Same v) (hvs : SameSum vs' vs) :
    SameSum (v' :: vs') (v :: vs) where
  chunks := by simp only [List.filterMap_cons, hv.chunk, hvs.chunks]
  spent := by simp only [Speller.spent, hv.spent, hvs.spent]
  lead := by rw [leadThreshold?_cons, leadThreshold?_cons, hvs.lead, hv.count, hv.threshold]

theorem SameSum.leftover {vs' vs : List Visit} (h : SameSum vs' vs) (n : Nat) :
    leftover n vs' = leftover n vs := by
  unfold Speller.leftover
  rw [h.lead, h.spent]

/-! ## Visits -/

theorem unitChunk_unbounded {count : Nat} (hthreshold : step'.threshold = step.threshold)
    (hsub : ∀ g, sub' count g = sub count g) :
    (s.unbounded es).unitChunk sub' f tail position unit step' count
      = s.unitChunk sub f tail position unit step count := by
  unfold unitChunk
  rw [hsub, hthreshold]
  rfl

theorem visit_unbounded (hthreshold : step'.threshold = step.threshold)
    (hcount : step'.count remaining = step.count remaining)
    (hsub : ∀ m g, m ≤ remaining → sub' m g = sub m g) :
    Mirrors id Visit.Same ((s.unbounded es).visit sub' f tail position unit step' remaining)
      (s.visit sub f tail position unit step remaining) := by
  have hle : step.count remaining ≤ remaining := step.count_le remaining
  simp only [visit]
  rw [hcount, unitChunk_unbounded hthreshold fun g => hsub _ g hle]
  by_cases h0 : step.count remaining = 0
  · rw [if_pos h0, if_pos h0]
    exact ⟨_, rfl, rfl, rfl, hthreshold⟩
  · rw [if_neg h0, if_neg h0]
    apply Mirrors.map (mirrors_refl (R := (· = ·)) (fun _ => rfl) _)
    rintro chunk - rfl
    exact ⟨rfl, rfl, hthreshold⟩

theorem visits_cons (rest : List (ScaleUnit × Option Step)) :
    s.visits sub f tail position ((unit, some step) :: rest) remaining =
      s.visit sub f tail position unit step remaining >>= fun v =>
        (v :: ·) <$> s.visits sub f tail (position + 1) rest (remaining - v.spent) := by
  rw [visits]
  cases s.visit sub f tail position unit step remaining with
  | error fault => rfl
  | ok v =>
    show (do .ok (v :: (← s.visits sub f tail (position + 1) rest (remaining - v.spent)))) =
      (v :: ·) <$> s.visits sub f tail (position + 1) rest (remaining - v.spent)
    cases s.visits sub f tail (position + 1) rest (remaining - v.spent) <;> rfl

/-- Units whose thresholds are no magnitudes are visited for nothing. -/
theorem visits_beyond (hn : remaining < Numeral.magnitudeBound) (hes : ∀ e ∈ es, 38 < e)
    (s : Speller) (units : List ScaleUnit) (position : Nat) :
    Mirrors id SameSum
      (s.visits sub f tail position (units.zip ((ScaleTable.trueSteps es).map some)) remaining)
      (.ok []) := by
  induction es generalizing units position with
  | nil =>
    rw [ScaleTable.trueSteps, List.map_nil, List.zip_nil_right]
    exact ⟨[], rfl, rfl, rfl, rfl⟩
  | cons e es ih =>
    cases units with
    | nil => exact ⟨[], rfl, rfl, rfl, rfl⟩
    | cons unit units =>
      have hlt := ScaleTable.lt_ten_pow_of_magnitude hn (hes e List.mem_cons_self)
      have hcount : (ScaleTable.trueStep e es).count remaining = 0 := Step.count_of_lt hlt
      obtain ⟨vs, hvs, hchunks, hspent, hlead⟩ :=
        ih (fun e' he' => hes e' (List.mem_cons_of_mem e he')) units (position + 1)
      rw [ScaleTable.trueSteps, List.map_cons, List.zip_cons_cons, visits_cons,
        visit_of_zero hcount]
      let v : Visit := ⟨ScaleTable.trueStep e es, (ScaleTable.trueStep e es).count remaining, none⟩
      refine ⟨v :: vs, ?_, ?_, ?_, ?_⟩
      · show (v :: ·) <$> s.visits sub f tail (position + 1) _ remaining = _
        rw [hvs]
        rfl
      · rw [List.filterMap_cons_none rfl, hchunks]
      · show v.spent + Speller.spent vs = 0
        rw [hspent]
        rfl
      · rw [leadThreshold?_cons, hlead]
        exact if_pos hcount

/-- A magnitude has the same visits with every threshold, as far as a sum can tell. -/
theorem visits_unbounded (h : es.Pairwise (· < ·)) (hn : remaining < Numeral.magnitudeBound)
    (hsub : ∀ m g, m ≤ remaining → sub' m g = sub m g) (all : List Nat) (units : List ScaleUnit)
    (position : Nat) :
    Mirrors id SameSum
      ((s.unbounded all).visits sub' f tail position
        (units.zip ((ScaleTable.trueSteps es).map some)) remaining)
      (s.visits sub f tail position (units.zip (ScaleTable.stepsOf es)) remaining) := by
  induction es generalizing units position remaining with
  | nil =>
    rw [ScaleTable.trueSteps, ScaleTable.stepsOf, List.map_nil, List.zip_nil_right]
    exact ⟨[], rfl, rfl, rfl, rfl⟩
  | cons e es ih =>
    cases units with
    | nil => exact ⟨[], rfl, rfl, rfl, rfl⟩
    | cons unit units =>
      by_cases he : e ≤ 38
      · rw [ScaleTable.trueSteps, ScaleTable.stepsOf_cons_of_le he, List.map_cons,
          List.zip_cons_cons, List.zip_cons_cons, visits_cons, visits_cons]
        have hcount := ScaleTable.count_trueStep h hn
        have hvisit : Mirrors id Visit.Same
            ((s.unbounded all).visit sub' f tail position unit (ScaleTable.trueStep e es) remaining)
            (s.visit sub f tail position unit
              { threshold := 10 ^ e, divisor := ScaleTable.divisorBelow (10 ^ e) es }
              remaining) := visit_unbounded rfl hcount hsub
        refine hvisit.bind fun v' v hv => ?_
        rw [hv.spent]
        have hle : remaining - v.spent ≤ remaining := Nat.sub_le _ _
        have hrest := ih (List.pairwise_cons.1 h).2 (Nat.lt_of_le_of_lt hle hn)
          (fun m g hm => hsub m g (Nat.le_trans hm hle)) units (position + 1)
        exact hrest.map fun vs' vs hvs => .cons hv hvs
      · have hbeyond : ∀ e' ∈ e :: es, 38 < e' := by
          intro e' he'
          rcases List.mem_cons.1 he' with rfl | hmem
          · omega
          · have hgt := (List.pairwise_cons.1 h).1 e' hmem
            omega
        rw [ScaleTable.stepsOf_cons_of_lt (by omega), List.zip_cons_cons, visits]
        exact visits_beyond hn hbeyond _ (unit :: units) position

/-! ## Readings -/

theorem readSum_unbounded (h : s.Scaled es) (hn : n < Numeral.magnitudeBound)
    (hsub : ∀ m g, m ≤ n → sub' m g = sub m g) :
    (s.unbounded es).readSum sub' n f = s.readSum sub n f := by
  have htail : (s.unbounded es).tailChunks sub' n f = s.tailChunks sub n f := by
    unfold tailChunks
    rw [hsub _ _ (Nat.mod_le n 100)]
    rfl
  have hvisits : Mirrors id SameSum
      ((s.unbounded es).visits sub' f (n % 100 != 0) 0 (s.unbounded es).units n)
      (s.visits sub f (n % 100 != 0) 0 (s.descriptor.units.toList.zip (ScaleTable.stepsOf es)) n) :=
    visits_unbounded h.ascending hn hsub es s.descriptor.units.toList 0
  rw [← h.steps] at hvisits
  unfold readSum
  rw [htail]
  cases s.tailChunks sub n f with
  | error fault => rfl
  | ok lowest =>
    show (do
      let vs ← (s.unbounded es).visits sub' f (n % 100 != 0) 0 (s.unbounded es).units n
      Except.ok (Reading.sum ((s.unbounded es).conjoin (leftover n vs) _))) = (do
      let vs ← s.visits sub f (n % 100 != 0) 0 s.units n
      Except.ok (Reading.sum (s.conjoin (leftover n vs) _)))
    cases hvs : s.visits sub f (n % 100 != 0) 0 s.units n with
    | error fault =>
      rw [show s.descriptor.units.toList.zip s.scale.steps = s.units from rfl, hvs] at hvisits
      have hvs' : (s.unbounded es).visits sub' f (n % 100 != 0) 0 (s.unbounded es).units n
        = .error fault := hvisits
      rw [hvs']
      rfl
    | ok vs =>
      rw [show s.descriptor.units.toList.zip s.scale.steps = s.units from rfl, hvs] at hvisits
      obtain ⟨vs', hvs', hsame⟩ := hvisits
      have hvs' : (s.unbounded es).visits sub' f (n % 100 != 0) 0 (s.unbounded es).units n
        = .ok vs' := hvs'
      rw [hvs']
      show Except.ok (Reading.sum (s.conjoin (leftover n vs')
        (lowest ++ vs'.filterMap (·.chunk)))) = _
      rw [hsame.leftover, hsame.chunks]
      rfl

/-- A magnitude is read as with every threshold. -/
theorem read_unbounded (h : s.Scaled es) (hn : n < Numeral.magnitudeBound) (levels : Nat)
    (f : Frame) : (s.unbounded es).read levels n f = s.read levels n f := by
  induction levels generalizing n f with
  | zero => rfl
  | succ levels ih =>
    have hsub : ∀ m g, m ≤ n → (s.unbounded es).read levels m g = s.read levels m g :=
      fun m g hm => ih (Nat.lt_of_le_of_lt hm hn) g
    rw [read, read]
    cases hw : s.wholeWord? f n with
    | some w =>
      have hw' : (s.unbounded es).wholeWord? f n = some w := hw
      rw [readStep_of_word hw, readStep_of_word hw']
    | none =>
      have hw' : (s.unbounded es).wholeWord? f n = none := hw
      rcases Nat.lt_or_ge n 100 with hlt | hle
      · rw [readStep_of_lt hw hlt, readStep_of_lt hw' hlt]
        unfold readTens
        rw [hsub _ _ (Nat.mod_le n 10)]
        rfl
      · rw [readStep_of_le hw hle, readStep_of_le hw' hle, readSum_unbounded h hn hsub]

end Speller
end NumberWords
