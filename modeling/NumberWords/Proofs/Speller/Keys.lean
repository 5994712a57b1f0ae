import NumberWords.Proofs.Speller.Choices

/-!
The keys of a lexicon from one hundred on.

A descriptor may have such a key if some compound unit divides it.  What a walk looks up at a
compound unit is less than that: a count below the divisor of the unit, times its threshold.  So a
key is looked up exactly when its most significant unit is compound and divides it, and the key lies
below the bound of that unit (`isCountOfCompound_iff_top`).  Every such key is that of a count which
some magnitude has (`accepted_key`); any other key is only ever the word of a number as a whole.
-/

namespace NumberWords

open Fallible

/-! ## Neighbouring thresholds -/

namespace Descriptor

theorem isChain_conventional (c : Convention) :
    ((List.range Convention.positions).filterMap c.exponent?).IsChain fun a b => b ≤ a + 6 := by
  cases c <;> decide

/-- Ordered units lie at most six powers of ten apart. -/
theorem isChain_exponents {d : Descriptor} {units : List ScaleUnit} (hu : d.units = .ordered units)
    {es : List Nat} (h : d.exponents = .ok es) : es.IsChain fun a b => b ≤ a + 6 := by
  unfold exponents at h
  simp only [hu] at h
  split_ifs at h with hempty hmany
  cases h
  obtain ⟨more, hmore⟩ := Nat.exists_eq_add_of_le (Nat.le_of_not_lt hmany)
  have hchain := isChain_conventional d.convention
  rw [hmore, List.range_add, List.filterMap_append] at hchain
  exact hchain.left_of_append

end Descriptor

namespace Speller

variable {s : Speller} {es : List Nat} {f : Frame} {n k : Nat} {r : Rung}

def Rung.IsCompound (r : Rung) : Prop := ∃ u, r.unit = .inflected u ∧ u.compound = true

/-- The number is a count of a compound unit, below the divisor of the unit. -/
def IsCountOfCompound (s : Speller) (k : Nat) : Prop :=
  ∃ position u step count,
    s.descriptor.units.toList[position]? = some (.inflected u) ∧ u.compound = true ∧
    s.scale.step? position = some step ∧ 1 ≤ count ∧
    (∀ divisor, step.divisor = some divisor → count < divisor) ∧ k = count * step.threshold

/-- Some compound unit has a count of `n`, which makes `k`. -/
def CountsCompound (s : Speller) (n k : Nat) : Prop :=
  ∃ r ∈ s.rungs, r.IsCompound ∧ r.step.count n ≠ 0 ∧ r.step.count n * r.step.threshold = k

/-! ## Counts of compound units -/

theorem isCountOfCompound_of_countsCompound (h : s.Scaled es) (hk : s.CountsCompound n k) :
    s.IsCountOfCompound k := by
  obtain ⟨r, hr, ⟨u, hu, hcompound⟩, hcount, rfl⟩ := hk
  obtain ⟨hunit, hstep⟩ := h.mem_rungs_iff.1 hr
  refine ⟨r.position, u, r.step, r.step.count n, hu ▸ hunit, hcompound, hstep,
    Nat.pos_of_ne_zero hcount, fun divisor hd => ?_, rfl⟩
  exact Step.count_lt_divisor hd (h.divisor_pos hr hd) n

theorem isCountOfCompound_iff (h : s.Scaled es) :
    s.IsCountOfCompound k ↔ s.CountsCompound k k := by
  refine ⟨?_, isCountOfCompound_of_countsCompound h⟩
  rintro ⟨position, u, step, count, hunit, hcompound, hstep, hpos, hlt, rfl⟩
  have hr : { position, unit := .inflected u, step } ∈ s.rungs := h.mem_rungs_iff.2 ⟨hunit, hstep⟩
  have hcount := Step.count_mul (h.threshold_pos hr) hlt
  refine ⟨_, hr, ⟨u, rfl, hcompound⟩, ?_, ?_⟩
  · rw [hcount]
    omega
  · rw [hcount]

theorem lt_bound_of_count (h : s.Scaled es) (hr : r ∈ s.rungs)
    (hk : r.step.count k * r.step.threshold = k) {divisor : Nat}
    (hd : r.step.divisor = some divisor) : k < r.step.threshold * divisor := by
  have hlt := Step.count_lt_divisor hd (h.divisor_pos hr hd) k
  rw [← hk, Nat.mul_comm]
  exact Nat.mul_lt_mul_of_pos_left hlt (h.threshold_pos hr)

/-- The unit whose count makes the whole number is the most significant one. -/
theorem top_of_count (h : s.Scaled es) (hr : r ∈ s.rungs) (hcount : r.step.count k ≠ 0)
    (hk : r.step.count k * r.step.threshold = k) : s.Top k r := by
  have hle := Step.threshold_le_of_count hcount
  obtain ⟨low, top, high, hrungs, htop, hhigh⟩ := exists_split ⟨r, hr, hle⟩
  have hmem : top ∈ s.rungs := hrungs ▸ List.mem_append_right low List.mem_cons_self
  have hcases := hr
  rw [hrungs, List.mem_append, List.mem_cons] at hcases
  rcases hcases with hlow | rfl | habove
  · -- The threshold of a greater unit is a bound for the counts of this one.
    obtain ⟨divisor, hd, -, hdvd⟩ := h.below_top hrungs r hlow
    have hnext := Nat.le_of_dvd (h.threshold_pos hmem) hdvd
    have hlt := lt_bound_of_count h hr hk hd
    omega
  · exact h.top_of_split hrungs htop hhigh
  · exact absurd hle (Nat.not_le.2 (hhigh r habove))

/-- A number is a count of a compound unit only under its most significant unit. -/
theorem isCountOfCompound_iff_top (h : s.Scaled es) :
    s.IsCountOfCompound k ↔ ∃ top, s.Top k top ∧ top.IsCompound ∧ top.step.threshold ∣ k ∧
      ∀ divisor, top.step.divisor = some divisor → k < top.step.threshold * divisor := by
  rw [isCountOfCompound_iff h]
  constructor
  · rintro ⟨r, hr, hcompound, hcount, hk⟩
    refine ⟨r, top_of_count h hr hcount hk, hcompound, ?_, fun _ => lt_bound_of_count h hr hk⟩
    exact ⟨r.step.count k, by rw [Nat.mul_comm, hk]⟩
  · rintro ⟨top, htop, hcompound, hdvd, hbound⟩
    have hr : top ∈ s.rungs := h.mem_rungs_iff.2 ⟨htop.unit, htop.step⟩
    have hpos := h.threshold_pos hr
    have hcount := Step.count_eq_div hpos (Step.within_eq_self hbound)
    refine ⟨top, hr, hcompound, ?_, ?_⟩
    · rw [hcount]
      exact Nat.ne_of_gt (Nat.div_pos htop.le hpos)
    · rw [hcount, Nat.div_mul_cancel hdvd]

/-! ## Magnitudes with a count -/

/-- The counts of an inflected unit start again at a power of ten that is a magnitude, unless the
unit is one of the greatest. -/
theorem exists_period (h : s.Scaled es) (hr : r ∈ s.rungs) {u : InflectedUnit}
    (hu : r.unit = .inflected u) (ht : r.step.threshold ≤ 10 ^ 32) :
    ∃ divisor e, r.step.divisor = some divisor ∧ e ≤ 38 ∧
      r.step.threshold * divisor = 10 ^ e := by
  obtain ⟨hunit, hstep⟩ := h.mem_rungs_iff.1 hr
  have hchain : es.IsChain fun a b => b ≤ a + 6 := by
    cases hunits : s.descriptor.units with
    | ordered units => exact Descriptor.isChain_exponents hunits h.exponents
    | byExponent words =>
      rw [hu] at hunit
      exact absurd (List.mem_of_getElem? hunit) (Descriptor.not_inflected_of_byExponent hunits)
  rw [ScaleTable.step?, Option.join_eq_some_iff, h.steps, ScaleTable.getElem?_stepsOf,
    Option.map_eq_some_iff] at hstep
  obtain ⟨e, he, hstep⟩ := hstep
  obtain ⟨t, hte, hstep⟩ := Option.map_eq_some_iff.1 hstep
  cases (Option.ite_none_right_eq_some.1 hte).2
  rw [← hstep] at ht ⊢
  have hle : e ≤ 32 := (Nat.pow_le_pow_iff_right (by decide)).1 ht
  cases hrest : es.drop (r.position + 1) with
  | nil => exact ⟨ScaleTable.lastDivisor, e + 6, rfl, by omega, (Nat.pow_add 10 e 6).symm⟩
  | cons e' rest =>
    obtain ⟨hposition, hget⟩ := List.getElem?_eq_some_iff.1 he
    have hdrop : es.drop r.position = e :: e' :: rest := by
      rw [List.drop_eq_getElem_cons hposition, hget, hrest]
    have hnear := hchain.drop r.position
    have hascending := h.ascending.drop (i := r.position)
    rw [hdrop] at hnear hascending
    have hgap : e' ≤ e + 6 := (List.isChain_cons_cons.1 hnear).1
    have hlt : e < e' := (List.pairwise_cons.1 hascending).1 e' List.mem_cons_self
    refine ⟨10 ^ e' / 10 ^ e, e', ?_, by omega, ScaleTable.ten_pow_mul_div_of_lt hlt⟩
    show (tenPow? e').map (· / 10 ^ e) = _
    rw [tenPow?, if_pos (by omega)]
    rfl

/-- What a number counts at a compound unit, some magnitude without a word of its own counts too. -/
theorem countsCompound_add (h : s.Scaled es) (hk : s.CountsCompound k k) (hlt : k < 2 ^ 64) :
    s.CountsCompound (k + 10 ^ 38) k := by
  obtain ⟨r, hr, ⟨u, hu, hcompound⟩, hcount, hmul⟩ := hk
  have hle := Step.threshold_le_of_count hcount
  have hbound : 2 ^ 64 ≤ 10 ^ 32 := by decide
  have ht : r.step.threshold ≤ 10 ^ 32 := by omega
  obtain ⟨divisor, e, hd, he, hperiod⟩ := exists_period h hr hu ht
  have hdvd : r.step.threshold * divisor ∣ 10 ^ 38 := by
    rw [hperiod]
    exact Nat.pow_dvd_pow 10 he
  have hmod : (k + 10 ^ 38) % 10 ^ 38 = k := by
    rw [Nat.add_mod_right]
    exact Nat.mod_eq_of_lt (Nat.lt_trans hlt (by decide))
  have hcount' := Step.count_mod_of_dvd hd hdvd (k + 10 ^ 38)
  rw [hmod] at hcount'
  exact ⟨r, hr, ⟨u, hu, hcompound⟩, hcount' ▸ hcount, by rw [← hcount', hmul]⟩

/-! ## Accepted keys -/

theorem exists_rung_of_isCompoundKey (h : s.Scaled es) {key : UInt64}
    (hkey : s.descriptor.isCompoundKey s.scale key = true) :
    ∃ r ∈ s.rungs, r.IsCompound ∧ r.step.threshold ∣ key.toNat := by
  obtain ⟨⟨unit, step?⟩, hmem, hunit⟩ := List.any_eq_true.1 hkey
  obtain ⟨position, hget⟩ := List.mem_iff_getElem?.1 hmem
  obtain ⟨hposition, hstep⟩ := List.getElem?_zip_eq_some.1 hget
  match unit, step? with
  | .plain w, _ => cases hunit
  | .inflected u, none => cases hunit
  | .inflected u, some step =>
    obtain ⟨hcompound, hmod⟩ := Bool.and_eq_true_iff.1 hunit
    have hr : { position, unit := .inflected u, step } ∈ s.rungs := by
      refine h.mem_rungs_iff.2 ⟨hposition, ?_⟩
      rw [ScaleTable.step?, hstep]
      rfl
    exact ⟨_, hr, ⟨u, rfl, hcompound⟩, Nat.dvd_of_mod_eq_zero (beq_iff_eq.1 hmod)⟩

end Speller

namespace Descriptor

/-- A valid descriptor has no stray keys. -/
theorem isCompoundKey_of_validate {d : Descriptor} (hd : d.validate = .ok ()) {scale : ScaleTable}
    (hscale : d.scale = .ok scale) {lexicon : Lexicon}
    (hlexicon : lexicon ∈ d.base :: d.alternatives.values) {key : UInt64}
    (hkey : key ∈ lexicon.keys) (hle : 100 ≤ key.toNat) : d.isCompoundKey scale key = true := by
  obtain ⟨scale', hscale', hd⟩ := bind_eq_ok.1 hd
  cases hscale.symm.trans hscale'
  have hfault : d.fault? scale = none := by
    cases hfault : d.fault? scale with
    | none => rfl
    | some fault =>
      rw [hfault] at hd
      cases hd
  obtain ⟨name, hnamed⟩ : ∃ name, (name, lexicon) ∈ d.namedLexicons := by
    rcases List.mem_cons.1 hlexicon with rfl | hvalue
    · exact ⟨"base", List.mem_cons_self⟩
    · obtain ⟨entry, hentry, rfl⟩ := List.mem_map.1 hvalue
      exact ⟨entry.1, List.mem_cons_of_mem _ hentry⟩
  have hstray := List.findSome?_eq_none_iff.1 (Option.or_eq_none_iff.1 hfault).1 _ hnamed
  have hnone := List.find?_eq_none.1 (Option.map_eq_none_iff.1 hstray) key hkey
  simpa [hle] using hnone

end Descriptor

namespace Speller

/-- A key from one hundred on is accepted as a multiple of a compound unit.  It is a count of one,
and so is looked up for the count of some magnitude, exactly when its most significant unit is
compound, divides it, and has a bound above it. -/
theorem accepted_key {d : Descriptor} (hd : d.validate = .ok ()) :
    ∃ s, d.speller = .ok s ∧
      ∀ lexicon ∈ d.base :: d.alternatives.values, ∀ key ∈ lexicon.keys, 100 ≤ key.toNat →
        (∃ r ∈ s.rungs, r.IsCompound ∧ r.step.threshold ∣ key.toNat) ∧
        (s.IsCountOfCompound key.toNat ↔
          ∃ top, s.Top key.toNat top ∧ top.IsCompound ∧ top.step.threshold ∣ key.toNat ∧
            ∀ divisor, top.step.divisor = some divisor →
              key.toNat < top.step.threshold * divisor) ∧
        (s.IsCountOfCompound key.toNat ↔
          ∃ n, 100 ≤ n ∧ n < Numeral.magnitudeBound ∧ (∀ f, s.wholeWord? f n = none) ∧
            s.CountsCompound n key.toNat) := by
  obtain ⟨s, hs⟩ := d.exists_speller hd
  obtain ⟨rfl, es, h⟩ := scaled_of_speller hs
  obtain ⟨scale, hscale, heq⟩ := bind_eq_ok.1 hs
  have hscale' : scale = s.scale := congrArg Speller.scale (Except.ok.inj heq)
  rw [hscale'] at hscale
  refine ⟨s, hs, fun lexicon hlexicon key hkey hle => ⟨?_, isCountOfCompound_iff_top h, ?_, ?_⟩⟩
  · exact exists_rung_of_isCompoundKey h
      (Descriptor.isCompoundKey_of_validate hd hscale hlexicon hkey hle)
  · intro hcount
    have hlt := key.toNat_lt
    have hadd := countsCompound_add h ((isCountOfCompound_iff h).1 hcount) hlt
    refine ⟨key.toNat + 10 ^ 38, by omega, ?_, fun f => wholeWord?_eq_none_of_le ?_, hadd⟩
    · have hbound : 2 ^ 64 + 10 ^ 38 < Numeral.magnitudeBound := by decide
      omega
    · have hpow : UInt64.size ≤ 10 ^ 38 := by decide
      omega
  · rintro ⟨n, -, -, -, hn⟩
    exact isCountOfCompound_of_countsCompound h hn

/-- Nine hundred is a count of an irregular hundred.  One thousand is accepted as a multiple of it
too, but the thousand says it, and no magnitude counts ten hundreds. -/
theorem thousand_among_hundreds :
    let d : Descriptor :=
      { base := { entries := [(1, "one"), (900, "ninehundred"), (1000, "grand")] }
        units := .ordered
          [.inflected { singular := "hundred", compound := true }, .plain "thousand"] }
    d.validate = .ok () ∧ ∃ s, d.speller = .ok s ∧
      (∃ n, 100 ≤ n ∧ n < Numeral.magnitudeBound ∧ (∀ f, s.wholeWord? f n = none) ∧
        s.CountsCompound n 900) ∧
      (∃ r ∈ s.rungs, r.IsCompound ∧ r.step.threshold ∣ 1000) ∧ ¬ s.IsCountOfCompound 1000 := by
  intro d
  have hd : d.validate = .ok () := by decide
  obtain ⟨s, hs, hkeys⟩ := accepted_key hd
  obtain ⟨-, -, hcounted⟩ := hkeys d.base List.mem_cons_self 900 (by decide) (by decide)
  obtain ⟨haccepted, htop, -⟩ := hkeys d.base List.mem_cons_self 1000 (by decide) (by decide)
  have hnine : s.IsCountOfCompound 900 := by
    cases hs
    exact ⟨0, _, _, 9, rfl, rfl, rfl, by decide, fun divisor hd => by cases hd; decide, rfl⟩
  refine ⟨hd, s, hs, hcounted.1 hnine, haccepted, fun hcount => ?_⟩
  obtain ⟨top, ht, ⟨u, hu, -⟩, -⟩ := htop.1 hcount
  obtain ⟨-, es, h⟩ := scaled_of_speller hs
  have hr : top ∈ s.rungs := h.mem_rungs_iff.2 ⟨ht.unit, ht.step⟩
  have hthousand : s.scale.step? 1
      = some { threshold := 1000, divisor := some ScaleTable.lastDivisor } := by
    cases hs
    rfl
  have hplain : ∀ r ∈ s.rungs, 1000 ≤ r.step.threshold → r.unit = .plain "thousand" := by
    cases hs
    decide
  have hle := ht.greatest 1 _ hthousand (by decide)
  rw [hplain top hr hle] at hu
  cases hu

end Speller
end NumberWords
