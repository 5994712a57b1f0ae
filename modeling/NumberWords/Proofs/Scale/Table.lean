import NumberWords.Proofs.Machine.Table

/-!
Scale tables, position by position.

A list of exponents has a table when the exponents are positive and ascend strictly.  The step at a
position comes from the exponent there and the one after it (`step?_stepsOf`), and everything that a
decomposition relies on can be read off it (`IsTableOf`): the present steps come before the absent
ones, the divisor of each is the ratio of its threshold to the next, and only the last unit has the
fixed one.
-/

namespace NumberWords
namespace ScaleTable

/-- What the table of some exponents holds at each position. -/
structure IsTableOf (t : ScaleTable) (es : List Nat) : Prop where
  /-- The step of an exponent is present when its power of ten is a magnitude. -/
  present_iff : ∀ i e, es[i]? = some e →
    ((t.step? i).isSome = true ↔ 10 ^ e < Numeral.magnitudeBound)
  /-- The threshold of a step is the power of ten of the exponent at its position. -/
  threshold : ∀ i st, t.step? i = some st → ∃ e, es[i]? = some e ∧ st.threshold = 10 ^ e
  /-- Before a present step all are present. -/
  present_of_le : ∀ i j, i ≤ j → (t.step? j).isSome = true → (t.step? i).isSome = true
  ascending : ∀ i j low high, i < j → t.step? i = some low → t.step? j = some high →
    low.threshold < high.threshold
  /-- Below the last unit the divisor depends on the next step, and leads to it. -/
  divisor : ∀ i st, i + 1 < es.length → t.step? i = some st →
    (st.divisor.isSome = (t.step? (i + 1)).isSome ∧
      ∀ next, t.step? (i + 1) = some next → st.Leads next)
  lastDivisor : ∀ i st, i + 1 = es.length → t.step? i = some st → st.divisor = some (10 ^ 6)
  /-- Past the last unit there is no step. -/
  past : ∀ i, es.length ≤ i → t.step? i = none

variable {es : List Nat} {i : Nat} {st : Step}

theorem step?_stepsOf (es : List Nat) (i : Nat) :
    ({ steps := stepsOf es } : ScaleTable).step? i = (es[i]?.bind tenPow?).map fun t =>
      { threshold := t, divisor := divisorBelow t (es.drop (i + 1)) } := by
  rw [step?, getElem?_stepsOf]
  cases es[i]? <;> rfl

theorem step?_stepsOf_eq_some_iff :
    ({ steps := stepsOf es } : ScaleTable).step? i = some st ↔
      ∃ e, es[i]? = some e ∧ e ≤ 38 ∧
        st = { threshold := 10 ^ e, divisor := divisorBelow (10 ^ e) (es.drop (i + 1)) } := by
  rw [step?_stepsOf, Option.map_eq_some_iff]
  constructor
  · rintro ⟨t, ht, rfl⟩
    obtain ⟨e, he, hte⟩ := Option.bind_eq_some_iff.1 ht
    obtain ⟨hle, ht⟩ := Option.ite_none_right_eq_some.1 hte
    cases ht
    exact ⟨e, he, hle, rfl⟩
  · rintro ⟨e, he, hle, rfl⟩
    exact ⟨10 ^ e, by rw [he]; exact if_pos hle, rfl⟩

theorem isSome_step?_stepsOf_iff :
    (({ steps := stepsOf es } : ScaleTable).step? i).isSome = true ↔
      ∃ e, es[i]? = some e ∧ e ≤ 38 := by
  rw [Option.isSome_iff_exists]
  constructor
  · rintro ⟨st, hst⟩
    obtain ⟨e, he, hle, -⟩ := step?_stepsOf_eq_some_iff.1 hst
    exact ⟨e, he, hle⟩
  · rintro ⟨e, he, hle⟩
    exact ⟨_, step?_stepsOf_eq_some_iff.2 ⟨e, he, hle, rfl⟩⟩

/-- Exponents that ascend do so from any position to any later one. -/
theorem lt_of_getElem? (h : es.Pairwise (· < ·)) {i j e e' : Nat} (hij : i < j)
    (he : es[i]? = some e) (he' : es[j]? = some e') : e < e' := by
  obtain ⟨hi, rfl⟩ := List.getElem?_eq_some_iff.1 he
  obtain ⟨hj, rfl⟩ := List.getElem?_eq_some_iff.1 he'
  exact List.pairwise_iff_getElem.1 h i j hi hj hij

/-- A threshold below another exponent has a divisor if that exponent has a threshold. -/
theorem divisorBelow_drop (t : Nat) {e : Nat} (he : es[i]? = some e) :
    divisorBelow t (es.drop i) = (tenPow? e).map (· / t) := by
  obtain ⟨hi, rfl⟩ := List.getElem?_eq_some_iff.1 he
  rw [List.drop_eq_getElem_cons hi]
  rfl

theorem isTableOf_stepsOf (h : es.Pairwise (· < ·)) : IsTableOf { steps := stepsOf es } es where
  present_iff i e he := by
    rw [isSome_step?_stepsOf_iff, ten_pow_lt_magnitudeBound_iff, he]
    simp
  threshold i st hst := by
    obtain ⟨e, he, -, rfl⟩ := step?_stepsOf_eq_some_iff.1 hst
    exact ⟨e, he, rfl⟩
  present_of_le i j hij hj := by
    obtain ⟨e', he', hle'⟩ := isSome_step?_stepsOf_iff.1 hj
    have hi : i < es.length := Nat.lt_of_le_of_lt hij (List.getElem?_eq_some_iff.1 he').1
    refine isSome_step?_stepsOf_iff.2 ⟨es[i], List.getElem?_eq_getElem hi, ?_⟩
    rcases Nat.eq_or_lt_of_le hij with rfl | hlt
    · rw [List.getElem?_eq_getElem hi] at he'
      cases he'
      exact hle'
    · have hexponent := lt_of_getElem? h hlt (List.getElem?_eq_getElem hi) he'
      omega
  ascending i j low high hij hlow hhigh := by
    obtain ⟨e, he, -, rfl⟩ := step?_stepsOf_eq_some_iff.1 hlow
    obtain ⟨e', he', -, rfl⟩ := step?_stepsOf_eq_some_iff.1 hhigh
    exact Nat.pow_lt_pow_right (by decide) (lt_of_getElem? h hij he he')
  divisor i st hi hst := by
    obtain ⟨e, he, -, rfl⟩ := step?_stepsOf_eq_some_iff.1 hst
    have he' : es[i + 1]? = some es[i + 1] := List.getElem?_eq_getElem hi
    have hlt := lt_of_getElem? h (Nat.lt_succ_self i) he he'
    have hdivisor := divisorBelow_drop (10 ^ e) he'
    constructor
    · show (divisorBelow (10 ^ e) (es.drop (i + 1))).isSome = _
      rw [hdivisor, step?_stepsOf, he', Option.bind_some, Option.isSome_map, Option.isSome_map]
    · intro next hnext
      obtain ⟨e'', he'', hle, rfl⟩ := step?_stepsOf_eq_some_iff.1 hnext
      cases he'.symm.trans he''
      refine ⟨10 ^ es[i + 1] / 10 ^ e, ?_, ten_le_ten_pow_div hlt, ten_pow_mul_div_of_lt hlt⟩
      show divisorBelow (10 ^ e) (es.drop (i + 1)) = _
      rw [hdivisor, tenPow?, if_pos hle]
      rfl
  lastDivisor i st hi hst := by
    obtain ⟨e, he, -, rfl⟩ := step?_stepsOf_eq_some_iff.1 hst
    show divisorBelow (10 ^ e) (es.drop (i + 1)) = _
    rw [List.drop_eq_nil_of_le (by omega)]
    rfl
  past i hi := by
    rw [step?_stepsOf, List.getElem?_eq_none hi]
    rfl

/-- Exponents have a table exactly when they are positive and ascend strictly.  The table is the one
that comes out in words of 128 bits, where no operation traps, and at each position it holds what
`IsTableOf` says. -/
theorem table_of_exponents (es : List Nat) :
    ((∃ t, ofExponents es = .ok t) ↔ (∀ e ∈ es, 1 ≤ e) ∧ es.Pairwise (· < ·)) ∧
      ∀ t, ofExponents es = .ok t → t.IsTableOf es ∧
        ∃ steps, Machine.table es = .ok steps ∧ steps.map (Option.map (·.toStep)) = t.steps := by
  constructor
  · constructor
    · rintro ⟨t, ht⟩
      obtain ⟨hpos, hascend, -⟩ := ofExponents_eq_ok_iff.1 ht
      exact ⟨hpos, hascend⟩
    · rintro ⟨hpos, hascend⟩
      exact ⟨_, ofExponents_eq_ok hpos hascend⟩
  · intro t ht
    obtain ⟨-, hascend, rfl⟩ := ofExponents_eq_ok_iff.1 ht
    obtain ⟨steps, hsteps, heq, -⟩ := Machine.table_eq hascend
    exact ⟨isTableOf_stepsOf hascend, steps, hsteps, heq⟩

/-- The greatest power of ten among the magnitudes is the thirty-eighth.  Here the unit below it is
not followed by a unit with a threshold, so its counts have no bound. -/
theorem table_past_magnitudes :
    ∃ t, ofExponents [2, 3, 36, 39, 42] = .ok t ∧ t.IsTableOf [2, 3, 36, 39, 42] ∧
      t.step? 1 = some { threshold := 1000, divisor := some (10 ^ 33) } ∧
      t.step? 2 = some { threshold := 10 ^ 36, divisor := none } ∧ t.step? 3 = none := by
  obtain ⟨hiff, htable⟩ := table_of_exponents [2, 3, 36, 39, 42]
  obtain ⟨t, ht⟩ := hiff.2 ⟨by decide, by decide⟩
  refine ⟨t, ht, (htable t ht).1, ?_⟩
  cases ht
  decide

end ScaleTable
end NumberWords
