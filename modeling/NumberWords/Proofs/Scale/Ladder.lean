import Mathlib.Algebra.GroupWithZero.Nat
import Mathlib.Data.List.Chain
import NumberWords.Proofs.Fallible
import NumberWords.Scale

/-!
Scale tables as ladders.

The present steps of a table of ascending exponents come before the absent ones, and the divisor of
each leads to the threshold of the next.  What the steps count of a number, each count times its
threshold, is then the number without its part below the first threshold, up to what the last step
can tell (`sum_count_add_mod`).
-/

namespace NumberWords

theorem ten_pow_lt_magnitudeBound_iff {e : Nat} : 10 ^ e < Numeral.magnitudeBound ↔ e ≤ 38 := by
  constructor
  · intro hlt
    have hle : e < 39 ∨ 10 ^ 39 ≤ 10 ^ e :=
      (Nat.lt_or_ge e 39).imp_right (Nat.pow_le_pow_right (by decide))
    have hbound : Numeral.magnitudeBound ≤ 10 ^ 39 := by decide
    omega
  · intro hle
    exact Nat.lt_of_le_of_lt (Nat.pow_le_pow_right (by decide) hle) (by decide)

theorem tenPow?_eq (e : Nat) :
    tenPow? e = if 10 ^ e < Numeral.magnitudeBound then some (10 ^ e) else none := by
  simp only [ten_pow_lt_magnitudeBound_iff]
  rfl

namespace Step

/-- What a step and all below it can tell of a number. -/
def within (s : Step) (n : Nat) : Nat :=
  match s.divisor with
  | some d => n % (s.threshold * d)
  | none => n

def Leads (a b : Step) : Prop :=
  ∃ d, a.divisor = some d ∧ 10 ≤ d ∧ a.threshold * d = b.threshold

/-- One step lies below another: the other's threshold is a multiple of the next after the one. -/
def Below (a b : Step) : Prop :=
  ∃ d, a.divisor = some d ∧ 10 ≤ d ∧ a.threshold * d ∣ b.threshold

theorem Leads.below {a b : Step} (h : Leads a b) : Below a b := by
  obtain ⟨d, hd, hten, ht⟩ := h
  exact ⟨d, hd, hten, ht ▸ Nat.dvd_refl _⟩

theorem Below.trans {a b c : Step} (hab : Below a b) (hbc : Below b c) : Below a c := by
  obtain ⟨d, hd, hten, hdvd⟩ := hab
  obtain ⟨d', -, -, hdvd'⟩ := hbc
  exact ⟨d, hd, hten, Nat.dvd_trans hdvd (Nat.dvd_trans (Nat.dvd_mul_right _ d') hdvd')⟩

instance : Trans Below Below Below := ⟨Below.trans⟩

theorem Below.threshold_lt {a b : Step} (h : Below a b) (ha : 0 < a.threshold)
    (hb : 0 < b.threshold) : a.threshold < b.threshold := by
  obtain ⟨d, -, hten, hdvd⟩ := h
  have hle := Nat.le_of_dvd hb hdvd
  have hmul : a.threshold * 10 ≤ a.threshold * d := Nat.mul_le_mul_left _ hten
  omega

theorem count_mul_add_mod (s : Step) (n : Nat) :
    s.count n * s.threshold + n % s.threshold = s.within n := by
  unfold count within
  cases s.divisor with
  | none =>
    rw [Nat.mul_comm]
    exact Nat.div_add_mod n s.threshold
  | some d =>
    show n / s.threshold % d * s.threshold + n % s.threshold = n % (s.threshold * d)
    rw [Nat.mod_mul, Nat.mul_comm, Nat.add_comm]

theorem within_le (s : Step) (n : Nat) : s.within n ≤ n := by
  unfold within
  cases s.divisor with
  | none => exact Nat.le_refl n
  | some d => exact Nat.mod_le n (s.threshold * d)

theorem Leads.within_eq {a b : Step} (h : Leads a b) (n : Nat) :
    a.within n = n % b.threshold := by
  obtain ⟨d, hd, -, ht⟩ := h
  unfold within
  rw [hd, ← ht]

/-- A step tells nothing of zero and of the numbers at which its counts start again. -/
theorem within_eq_zero_iff {s : Step} {bound n : Nat} (hn : n < bound) :
    s.within n = 0 ↔
      n = 0 ∨ ∃ p, (s.divisor.map (s.threshold * ·)).filter (· < bound) = some p ∧ p ∣ n := by
  unfold within
  cases s.divisor with
  | none => simp
  | some d =>
    by_cases hlt : s.threshold * d < bound
    · have hdvd : s.threshold * d ∣ n ↔ n % (s.threshold * d) = 0 := Nat.dvd_iff_mod_eq_zero
      simpa [hlt, hdvd] using fun h0 => by rw [h0, Nat.zero_mod]
    · have hmod : n % (s.threshold * d) = n := Nat.mod_eq_of_lt (by omega)
      simp [hlt, hmod]

theorem count_mul_le (s : Step) (n : Nat) : s.count n * s.threshold ≤ n := by
  have hsum := s.count_mul_add_mod n
  have hle := s.within_le n
  omega

theorem count_le (s : Step) (n : Nat) : s.count n ≤ n := by
  unfold count
  have hdiv := Nat.div_le_self n s.threshold
  cases s.divisor with
  | none => exact hdiv
  | some d => exact Nat.le_trans (Nat.mod_le _ d) hdiv

theorem count_of_lt {s : Step} {n : Nat} (h : n < s.threshold) : s.count n = 0 := by
  unfold count
  rw [Nat.div_eq_of_lt h]
  cases s.divisor with
  | none => rfl
  | some d => exact Nat.zero_mod d

theorem threshold_le_of_count {s : Step} {n : Nat} (h : s.count n ≠ 0) : s.threshold ≤ n :=
  Nat.le_of_not_lt fun hlt => h (count_of_lt hlt)

/-- A step tells all of a number below the bound of its counts. -/
theorem within_eq_self {s : Step} {n : Nat} (h : ∀ d, s.divisor = some d → n < s.threshold * d) :
    s.within n = n := by
  unfold within
  cases hd : s.divisor with
  | none => rfl
  | some d => exact Nat.mod_eq_of_lt (h d hd)

/-- Where the step tells all of a number, its count is the whole quotient. -/
theorem count_eq_div {s : Step} {n : Nat} (ht : 0 < s.threshold) (h : s.within n = n) :
    s.count n = n / s.threshold := by
  have hsum := s.count_mul_add_mod n
  rw [h] at hsum
  have hdiv : n / s.threshold * s.threshold + n % s.threshold = n := by
    rw [Nat.mul_comm]
    exact Nat.div_add_mod n s.threshold
  apply Nat.eq_of_mul_eq_mul_right ht
  omega

theorem count_lt_divisor {s : Step} {d : Nat} (hd : s.divisor = some d) (hpos : 0 < d) (n : Nat) :
    s.count n < d := by
  unfold count
  rw [hd]
  exact Nat.mod_lt _ hpos

/-- A count below the divisor is the count of its multiple of the threshold. -/
theorem count_mul {s : Step} {count : Nat} (hpos : 0 < s.threshold)
    (hlt : ∀ d, s.divisor = some d → count < d) : s.count (count * s.threshold) = count := by
  unfold Step.count
  rw [Nat.mul_div_cancel count hpos]
  cases hd : s.divisor with
  | none => rfl
  | some d => exact Nat.mod_eq_of_lt (hlt d hd)

/-- Taking off parts below the threshold leaves the count as it was. -/
theorem count_eq_of_settled {s : Step} {n remaining : Nat} (hle : remaining ≤ n)
    (hn : n ≤ remaining + n % s.threshold) : s.count remaining = s.count n := by
  have hdiv : remaining / s.threshold = n / s.threshold := by
    rcases Nat.eq_zero_or_pos s.threshold with h0 | hpos
    · rw [h0, Nat.div_zero, Nat.div_zero]
    · have hsplit := Nat.div_add_mod n s.threshold
      apply Nat.le_antisymm
      · exact Nat.div_le_div_right hle
      · rw [Nat.le_div_iff_mul_le hpos, Nat.mul_comm]
        omega
  unfold count
  rw [hdiv]

/-- Multiples of threshold and divisor do not count. -/
theorem count_mod_of_dvd {s : Step} {d m : Nat} (hd : s.divisor = some d)
    (h : s.threshold * d ∣ m) (n : Nat) : s.count (n % m) = s.count n := by
  obtain ⟨k, rfl⟩ := h
  unfold count
  rw [hd]
  show n % (s.threshold * d * k) / s.threshold % d = n / s.threshold % d
  rw [Nat.mul_assoc, Nat.mod_mul_right_div_self, Nat.mod_mul_right_mod]

/-- What a number has from a higher threshold on does not count below it. -/
theorem Below.count_mod {a b : Step} (h : Below a b) (n : Nat) :
    a.count (n % b.threshold) = a.count n := by
  obtain ⟨d, hd, -, hdvd⟩ := h
  exact count_mod_of_dvd hd hdvd n

end Step

namespace ScaleTable

open Fallible

def present (t : ScaleTable) : List Step := t.steps.filterMap id

def divisorBelow (t : Nat) : List Nat → Option Nat
  | [] => some lastDivisor
  | e :: _ => (tenPow? e).map (· / t)

theorem stepsOf_cons (e : Nat) (es : List Nat) :
    stepsOf (e :: es) =
      (tenPow? e).map (fun t => { threshold := t, divisor := divisorBelow t es })
        :: stepsOf es := by
  cases es with
  | nil => rfl
  | cons e' rest => rfl

theorem stepsOf_cons_of_le {e : Nat} (he : e ≤ 38) (es : List Nat) :
    stepsOf (e :: es) =
      some { threshold := 10 ^ e, divisor := divisorBelow (10 ^ e) es } :: stepsOf es := by
  rw [stepsOf_cons, tenPow?, if_pos he]
  rfl

theorem stepsOf_cons_of_lt {e : Nat} (he : 38 < e) (es : List Nat) :
    stepsOf (e :: es) = none :: stepsOf es := by
  rw [stepsOf_cons, tenPow?, if_neg (by omega)]
  rfl

theorem length_stepsOf (es : List Nat) : (stepsOf es).length = es.length := by
  induction es with
  | nil => rfl
  | cons e es ih => rw [stepsOf_cons, List.length_cons, ih, List.length_cons]

theorem getElem?_stepsOf (es : List Nat) (i : Nat) :
    (stepsOf es)[i]? = es[i]?.map fun e => (tenPow? e).map fun t =>
      { threshold := t, divisor := divisorBelow t (es.drop (i + 1)) } := by
  induction es generalizing i with
  | nil => rfl
  | cons e es ih =>
    rw [stepsOf_cons]
    cases i with
    | zero => rfl
    | succ i => exact ih i

/-- The step of an exponent has its power of ten as threshold. -/
theorem threshold_of_getElem? {es : List Nat} {i : Nat} {st : Step}
    (h : (stepsOf es)[i]? = some (some st)) :
    ∃ e, es[i]? = some e ∧ e ≤ 38 ∧ st.threshold = 10 ^ e := by
  induction es generalizing i with
  | nil => simp [stepsOf] at h
  | cons e es ih =>
    cases i with
    | succ i =>
      rw [stepsOf_cons, List.getElem?_cons_succ] at h
      exact ih h
    | zero =>
      rcases Nat.lt_or_ge 38 e with he | he
      · rw [stepsOf_cons_of_lt he] at h
        cases h
      · rw [stepsOf_cons_of_le he] at h
        cases h
        exact ⟨e, rfl, he, rfl⟩

theorem present_cons_of_le {e : Nat} (he : e ≤ 38) (es : List Nat) :
    (stepsOf (e :: es)).filterMap id =
      { threshold := 10 ^ e, divisor := divisorBelow (10 ^ e) es }
        :: (stepsOf es).filterMap id := by
  rw [stepsOf_cons_of_le he]
  rfl

/-- Past the last power of ten that is a magnitude no step is present. -/
theorem present_eq_nil {es : List Nat} (h : ∀ e ∈ es, 38 < e) :
    (stepsOf es).filterMap id = [] := by
  induction es with
  | nil => rfl
  | cons e es ih =>
    rw [stepsOf_cons_of_lt (h e List.mem_cons_self)]
    exact ih fun e' he' => h e' (List.mem_cons_of_mem e he')

theorem present_cons_of_lt {e : Nat} {es : List Nat} (h : (e :: es).Pairwise (· < ·))
    (he : 38 < e) : (stepsOf (e :: es)).filterMap id = [] := by
  apply present_eq_nil
  intro e' he'
  rcases List.mem_cons.1 he' with rfl | hmem
  · exact he
  · exact Nat.lt_trans he ((List.pairwise_cons.1 h).1 e' hmem)

variable {es : List Nat}

theorem pairwise_of_firstDescent? (h : firstDescent? es = none) : es.Pairwise (· < ·) := by
  induction es with
  | nil => exact .nil
  | cons e es ih =>
    cases es with
    | nil => exact List.pairwise_singleton _ e
    | cons e' rest =>
      rw [firstDescent?] at h
      by_cases hle : e' ≤ e
      · rw [if_pos hle] at h
        cases h
      · rw [if_neg hle] at h
        have hrest := ih h
        refine List.pairwise_cons.2 ⟨fun e'' he'' => ?_, hrest⟩
        rcases List.mem_cons.1 he'' with rfl | hmem
        · omega
        · have hgt := (List.pairwise_cons.1 hrest).1 e'' hmem
          omega

theorem firstDescent?_of_pairwise (h : es.Pairwise (· < ·)) : firstDescent? es = none := by
  induction es with
  | nil => rfl
  | cons e es ih =>
    obtain ⟨hlt, hrest⟩ := List.pairwise_cons.1 h
    cases es with
    | nil => rfl
    | cons e' rest =>
      rw [firstDescent?, if_neg (Nat.not_le.2 (hlt e' List.mem_cons_self))]
      exact ih hrest

theorem ofExponents_eq_ok_iff {t : ScaleTable} :
    ofExponents es = .ok t ↔
      (∀ e ∈ es, 0 < e) ∧ es.Pairwise (· < ·) ∧ t = { steps := stepsOf es } := by
  have hzero : ¬ es.contains 0 = true ↔ ∀ e ∈ es, 0 < e := by
    rw [List.contains_iff_mem]
    exact ⟨fun h e he => Nat.pos_of_ne_zero fun h0 => h (h0 ▸ he),
      fun h h0 => Nat.lt_irrefl 0 (h 0 h0)⟩
  unfold ofExponents
  rw [ite_error_eq_ok, hzero]
  refine and_congr_right fun _ => ?_
  cases hdescent : firstDescent? es with
  | some pair =>
    have hnot : ¬ es.Pairwise (· < ·) := fun h => by
      rw [firstDescent?_of_pairwise h] at hdescent
      cases hdescent
    simp [hnot]
  | none => simp [pairwise_of_firstDescent? hdescent, eq_comm]

theorem ofExponents_eq_ok (hpos : ∀ e ∈ es, 0 < e) (hascend : es.Pairwise (· < ·)) :
    ofExponents es = .ok { steps := stepsOf es } := ofExponents_eq_ok_iff.2 ⟨hpos, hascend, rfl⟩

/-- Once a step is absent, all later ones are. -/
theorem stepsOf_tapered (h : es.Pairwise (· < ·)) :
    (stepsOf es).Pairwise fun a b => a = none → b = none := by
  induction es with
  | nil => exact .nil
  | cons e es ih =>
    obtain ⟨he, hes⟩ := List.pairwise_cons.1 h
    rcases Nat.lt_or_ge 38 e with hlt | hle
    · rw [stepsOf_cons_of_lt hlt]
      refine List.pairwise_cons.2 ⟨fun b hb _ => ?_, ih hes⟩
      cases b with
      | none => rfl
      | some st =>
        obtain ⟨i, hi⟩ := List.mem_iff_getElem?.1 hb
        obtain ⟨e', he', hle', -⟩ := threshold_of_getElem? hi
        have hgt := he e' (List.mem_of_getElem? he')
        omega
    · rw [stepsOf_cons_of_le hle]
      exact List.pairwise_cons.2 ⟨fun b _ hb => (nomatch hb), ih hes⟩

theorem ten_pow_mul_div_of_lt {e e' : Nat} (h : e < e') :
    10 ^ e * (10 ^ e' / 10 ^ e) = 10 ^ e' :=
  Nat.mul_div_cancel' (Nat.pow_dvd_pow 10 (Nat.le_of_lt h))

theorem ten_le_ten_pow_div {e e' : Nat} (h : e < e') : 10 ≤ 10 ^ e' / 10 ^ e := by
  have hpos : 0 < 10 ^ e := Nat.pow_pos (by decide)
  rw [Nat.le_div_iff_mul_le hpos, Nat.mul_comm, ← Nat.pow_succ]
  exact Nat.pow_le_pow_right (by decide) h

theorem divisor_pos (h : es.Pairwise (· < ·)) {st : Step} (hst : some st ∈ stepsOf es) {d : Nat}
    (hd : st.divisor = some d) : 0 < d := by
  induction es with
  | nil => cases hst
  | cons e es ih =>
    obtain ⟨he, hes⟩ := List.pairwise_cons.1 h
    rw [stepsOf_cons] at hst
    rcases List.mem_cons.1 hst with hhead | hmem
    · obtain ⟨t, ht, rfl⟩ := Option.map_eq_some_iff.1 hhead.symm
      cases (Option.ite_none_right_eq_some.1 ht).2
      cases es with
      | nil =>
        cases hd
        decide
      | cons e' rest =>
        obtain ⟨t', ht', rfl⟩ := Option.map_eq_some_iff.1 hd
        cases (Option.ite_none_right_eq_some.1 ht').2
        exact Nat.lt_of_lt_of_le (by decide) (ten_le_ten_pow_div (he e' List.mem_cons_self))
    · exact ih hes hmem

theorem divisor_getLast {last : Step} (h : (stepsOf es).getLast? = some (some last)) :
    last.divisor = some lastDivisor := by
  induction es with
  | nil => cases h
  | cons e es ih =>
    rw [stepsOf_cons] at h
    cases es with
    | nil =>
      obtain ⟨t, -, rfl⟩ := Option.map_eq_some_iff.1 (Option.some.inj h)
      rfl
    | cons e' rest =>
      apply ih
      rw [stepsOf_cons] at h ⊢
      rwa [List.getLast?_cons_cons] at h

/-- Each present step leads to the next. -/
theorem isChain_present (h : es.Pairwise (· < ·)) :
    ((stepsOf es).filterMap id).IsChain Step.Leads := by
  induction es with
  | nil => exact .nil
  | cons e es ih =>
    obtain ⟨he, hes⟩ := List.pairwise_cons.1 h
    rcases Nat.lt_or_ge 38 e with hlt | hle
    · rw [present_cons_of_lt h hlt]
      exact .nil
    rw [present_cons_of_le hle]
    cases es with
    | nil => exact .singleton _
    | cons e' rest =>
      rcases Nat.lt_or_ge 38 e' with hlt' | hle'
      · rw [present_cons_of_lt hes hlt']
        exact .singleton _
      · have hchain := ih hes
        rw [present_cons_of_le hle'] at hchain ⊢
        have hlt := he e' List.mem_cons_self
        refine .cons_cons ⟨10 ^ e' / 10 ^ e, ?_, ten_le_ten_pow_div hlt,
          ten_pow_mul_div_of_lt hlt⟩ hchain
        show (tenPow? e').map (· / 10 ^ e) = some (10 ^ e' / 10 ^ e)
        rw [tenPow?, if_pos hle']
        rfl

/-- The last present step tells all of a number below the bound of the last unit. -/
theorem within_getLast_present (h : es.Pairwise (· < ·)) {st : Step}
    (hst : ((stepsOf es).filterMap id).getLast? = some st) {n : Nat}
    (hn : ∀ last, (stepsOf es).getLast? = some (some last) → n < last.threshold * lastDivisor) :
    st.within n = n := by
  induction es with
  | nil => cases hst
  | cons e es ih =>
    obtain ⟨he, hes⟩ := List.pairwise_cons.1 h
    rcases Nat.lt_or_ge 38 e with hlt | hle
    · rw [present_cons_of_lt h hlt] at hst
      cases hst
    rw [present_cons_of_le hle] at hst
    rw [stepsOf_cons_of_le hle] at hn
    cases es with
    | nil =>
      cases hst
      exact Nat.mod_eq_of_lt (hn _ rfl)
    | cons e' rest =>
      rcases Nat.lt_or_ge 38 e' with hlt' | hle'
      · rw [present_cons_of_lt hes hlt'] at hst
        cases hst
        show (match (tenPow? e').map (· / 10 ^ e) with
          | some d => n % (10 ^ e * d)
          | none => n) = n
        rw [tenPow?, if_neg (by omega)]
        rfl
      · refine ih hes ?_ fun last hlast => hn last ?_
        · rw [present_cons_of_le hle'] at hst ⊢
          exact hst
        · rw [stepsOf_cons_of_le hle'] at hlast ⊢
          exact hlast

/-- The counts of a ladder, each times its threshold, and what lies below the first threshold make
up what the last step tells. -/
theorem sum_count_add_mod (n : Nat) {steps : List Step} (h : steps.IsChain Step.Leads)
    {first last : Step} (hfirst : steps.head? = some first) (hlast : steps.getLast? = some last) :
    (steps.map fun st => st.count n * st.threshold).sum + n % first.threshold
      = last.within n := by
  induction steps generalizing first with
  | nil => cases hfirst
  | cons st steps ih =>
    cases hfirst
    have hstep := st.count_mul_add_mod n
    rw [List.map_cons, List.sum_cons]
    cases steps with
    | nil =>
      cases hlast
      simpa using hstep
    | cons next rest =>
      obtain ⟨hleads, hrest⟩ := List.isChain_cons_cons.1 h
      have hih := ih hrest rfl hlast
      rw [hleads.within_eq] at hstep
      omega

end ScaleTable
end NumberWords
