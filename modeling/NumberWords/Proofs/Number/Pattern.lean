import NumberWords.Magnitude
import NumberWords.Proofs.Number.Rounding

/-!
The magnitude of a bit pattern.

A pattern of 64 or of 32 bits is a sign, an exponent and a fraction, and has an exact rational value
or none (`Format.value?`).  Reading a pattern keeps the value, since every number of 32 bits is one
of 64 bits (`ofScaled_exact`), so one rounding serves both widths.  An accepted pattern has the
natural number nearest to its value as its magnitude, the even one of two (`float_magnitude`).
-/

namespace NumberWords

/-! ## Patterns -/

/-- The widths of the exponent and of the fraction.  The sign is the bit above them. -/
structure Format where
  exponentWidth : Nat
  fractionWidth : Nat

namespace Format

def single : Format := { exponentWidth := 8, fractionWidth := 23 }

def double : Format := { exponentWidth := 11, fractionWidth := 52 }

def isNegative (format : Format) (bits : Nat) : Bool :=
  bits / 2 ^ (format.exponentWidth + format.fractionWidth) % 2 == 1

def biased (format : Format) (bits : Nat) : Nat :=
  bits / 2 ^ format.fractionWidth % 2 ^ format.exponentWidth

def fraction (format : Format) (bits : Nat) : Nat := bits % 2 ^ format.fractionWidth

/-- The fraction with the bit that is not written, which is zero for the least exponent. -/
def significand (format : Format) (bits : Nat) : Nat :=
  if format.biased bits = 0 then format.fraction bits
  else 2 ^ format.fractionWidth + format.fraction bits

/-- The exponent of the last bit of the significand.  The two least exponents share it. -/
def exponent (format : Format) (bits : Nat) : Int :=
  max (format.biased bits) 1 - (2 ^ (format.exponentWidth - 1) - 1) - format.fractionWidth

/-- Infinities and what is no number have the greatest exponent, and no value. -/
def value? (format : Format) (bits : Nat) : Option ℚ :=
  if format.biased bits = 2 ^ format.exponentWidth - 1 then none
  else
    let size := Binary64.exactly (format.significand bits) (format.exponent bits)
    some (if format.isNegative bits then -size else size)

variable {format : Format} {bits : Nat}

theorem value?_of_greatest (h : format.biased bits = 2 ^ format.exponentWidth - 1) :
    format.value? bits = none := if_pos h

theorem value?_of_ne_greatest (h : format.biased bits ≠ 2 ^ format.exponentWidth - 1) :
    format.value? bits = some (if format.isNegative bits
      then -Binary64.exactly (format.significand bits) (format.exponent bits)
      else Binary64.exactly (format.significand bits) (format.exponent bits)) := if_neg h

theorem isNegative_eq (h : bits < 2 * 2 ^ (format.exponentWidth + format.fractionWidth)) :
    format.isNegative bits
      = decide (2 ^ (format.exponentWidth + format.fractionWidth) ≤ bits) := by
  rw [isNegative]
  by_cases hle : 2 ^ (format.exponentWidth + format.fractionWidth) ≤ bits
  · have hone : bits / 2 ^ (format.exponentWidth + format.fractionWidth) = 1 :=
      Nat.div_eq_of_lt_le (by omega) (by omega)
    rw [hone, decide_eq_true hle]
    rfl
  · rw [Nat.div_eq_of_lt (by omega), decide_eq_false hle]
    rfl

theorem significand_of_zero (h : format.biased bits = 0) :
    format.significand bits = format.fraction bits := if_pos h

theorem significand_of_ne_zero (h : format.biased bits ≠ 0) :
    format.significand bits = 2 ^ format.fractionWidth + format.fraction bits := if_neg h

theorem fraction_lt (format : Format) (bits : Nat) :
    format.fraction bits < 2 ^ format.fractionWidth := Nat.mod_lt _ (Nat.two_pow_pos _)

theorem biased_lt (format : Format) (bits : Nat) :
    format.biased bits < 2 ^ format.exponentWidth := Nat.mod_lt _ (Nat.two_pow_pos _)

theorem exponent_double (bits : Nat) :
    double.exponent bits = max (double.biased bits : Int) 1 - 1075 := by
  have hbias : (2 : Int) ^ (double.exponentWidth - 1) = 1024 := by decide
  have hwidth : double.fractionWidth = 52 := rfl
  rw [exponent, hbias, hwidth]
  omega

theorem exponent_single (bits : Nat) :
    single.exponent bits = max (single.biased bits : Int) 1 - 150 := by
  have hbias : (2 : Int) ^ (single.exponentWidth - 1) = 128 := by decide
  have hwidth : single.fractionWidth = 23 := rfl
  rw [exponent, hbias, hwidth]
  omega

end Format

inductive Pattern where
  | double (bits : UInt64)
  | single (bits : UInt32)

namespace Pattern

def value? : Pattern → Option ℚ
  | .double bits => Format.double.value? bits.toNat
  | .single bits => Format.single.value? bits.toNat

def number : Pattern → Binary64
  | .double bits => .ofBits bits
  | .single bits => .ofBits32 bits

end Pattern

namespace Binary64

variable {k : Nat} {e : Int}

/-! ## Reading a pattern -/

def value? : Binary64 → Option ℚ
  | .nan => none
  | .infinite _ => none
  | .finite negative m e => some (if negative then -exactly m e else exactly m e)

/-- A number of at most 53 bits has the form of a floating-point number. -/
theorem exists_canonical (hk : k < 2 ^ 53) (he : leastExponent + 52 ≤ e) :
    ∃ m e', Canonical m e' ∧ exactly m e' = exactly k e ∧ e' ≤ e := by
  unfold leastExponent at he
  rcases Nat.eq_zero_or_pos k with rfl | hpos
  · refine ⟨0, leastExponent, canonical_zero, ?_, by unfold leastExponent; omega⟩
    rw [exactly, exactly, Nat.cast_zero, zero_mul, zero_mul]
  · have hlog : k.log2 < 53 := (Nat.log2_lt hpos.ne').2 hk
    have hlow : 2 ^ k.log2 ≤ k := Nat.log2_self_le hpos.ne'
    have hhigh : k < 2 ^ (k.log2 + 1) := Nat.lt_log2_self
    -- Shift the number up to the 53rd bit.
    obtain ⟨shift, hshift⟩ : ∃ shift, k.log2 + shift = 52 := ⟨52 - k.log2, by omega⟩
    have hmin : 2 ^ 52 ≤ k * 2 ^ shift := by
      calc 2 ^ 52 = 2 ^ k.log2 * 2 ^ shift := by rw [← pow_add, hshift]
        _ ≤ k * 2 ^ shift := Nat.mul_le_mul_right _ hlow
    have hmax : k * 2 ^ shift < 2 ^ 53 := by
      calc k * 2 ^ shift < 2 ^ (k.log2 + 1) * 2 ^ shift :=
            Nat.mul_lt_mul_of_pos_right hhigh (Nat.two_pow_pos shift)
        _ = 2 ^ 53 := by rw [← pow_add, add_right_comm, hshift]
    refine ⟨k * 2 ^ shift, e - shift, ⟨hmax, ?_, .inl hmin⟩, ?_, by omega⟩
    · unfold leastExponent
      omega
    · have hdifference : (e - (e - shift)).toNat = shift := by omega
      rw [exactly_of_le (by omega : e - shift ≤ e) k, hdifference]
      rfl

/-- Nothing is rounded off a number of at most 53 bits. -/
theorem ofScaled_exact (negative : Bool) (hk : k < 2 ^ 53) (he : leastExponent + 52 ≤ e)
    (hgreat : e ≤ greatestExponent) :
    (ofScaled negative k e).value? = some (if negative then -exactly k e else exactly k e) := by
  obtain ⟨m, e', hcanonical, hexact, hle⟩ := exists_canonical hk he
  have hrounds := nearest_rounds negative (k * 2 ^ e.toNat) (Nat.two_pow_pos (-e).toNat)
  rw [exactly_quotient] at hrounds
  obtain ⟨m', e'', hnearest, hx⟩ := hrounds
  have hdistance := hnearest.least m e' hcanonical
  rw [hexact, sub_self, abs_zero] at hdistance
  have hsame : exactly m' e'' = exactly k e :=
    (sub_eq_zero.1 (abs_eq_zero.1 (le_antisymm hdistance (abs_nonneg _)))).symm
  obtain ⟨-, rfl⟩ := hnearest.canonical.unique hcanonical (hsame.trans hexact.symm)
  show (nearest negative (k * 2 ^ e.toNat) (2 ^ (-e).toNat)).value? = _
  rw [hx, if_pos (by omega), value?, hsame]

theorem value?_ofBits (bits : UInt64) : (ofBits bits).value? = Format.double.value? bits.toNat := by
  have hsign := Format.double.isNegative_eq bits.toNat_lt
  show value? (if Format.double.biased bits.toNat = 2 ^ 11 - 1 then _
    else if Format.double.biased bits.toNat = 0 then _ else _) = _
  by_cases hlast : Format.double.biased bits.toNat = 2 ^ 11 - 1
  · rw [if_pos hlast, Format.value?_of_greatest hlast]
    split <;> rfl
  · rw [if_neg hlast, Format.value?_of_ne_greatest hlast, hsign, Format.exponent_double]
    by_cases h0 : Format.double.biased bits.toNat = 0
    · rw [if_pos h0, Format.significand_of_zero h0, h0]
      rfl
    · rw [if_neg h0, Format.significand_of_ne_zero h0, max_eq_left (by omega)]
      rfl

theorem value?_ofBits32 (bits : UInt32) :
    (ofBits32 bits).value? = Format.single.value? bits.toNat := by
  have hsign := Format.single.isNegative_eq bits.toNat_lt
  have hfraction : Format.single.fraction bits.toNat < 2 ^ 23 := Format.fraction_lt _ _
  have hbiased : Format.single.biased bits.toNat < 2 ^ 8 := Format.biased_lt _ _
  have hwidths : 2 ^ 8 = 256 ∧ 2 ^ 23 + 2 ^ 23 < 2 ^ 53 := by decide
  show value? (if Format.single.biased bits.toNat = 2 ^ 8 - 1 then _
    else if Format.single.biased bits.toNat = 0 then _ else _) = _
  by_cases hlast : Format.single.biased bits.toNat = 2 ^ 8 - 1
  · rw [if_pos hlast, Format.value?_of_greatest hlast]
    split <;> rfl
  · rw [if_neg hlast, Format.value?_of_ne_greatest hlast, hsign, Format.exponent_single]
    by_cases h0 : Format.single.biased bits.toNat = 0
    · rw [if_pos h0, Format.significand_of_zero h0, h0]
      have hk : Format.single.fraction bits.toNat < 2 ^ 53 := by omega
      exact ofScaled_exact _ hk (by decide) (by decide)
    · rw [if_neg h0, Format.significand_of_ne_zero h0, max_eq_left (by omega)]
      have hk : 2 ^ 23 + Format.single.fraction bits.toNat < 2 ^ 53 := by omega
      obtain ⟨e, he⟩ : ∃ e : Int, e = (Format.single.biased bits.toNat : Int) - 150 := ⟨_, rfl⟩
      have hlow : leastExponent + 52 ≤ e := by
        unfold leastExponent
        omega
      have hhigh : e ≤ greatestExponent := by
        unfold greatestExponent
        omega
      subst he
      exact ofScaled_exact _ hk hlow hhigh

end Binary64

theorem Pattern.value?_number (p : Pattern) : p.number.value? = p.value? := by
  cases p with
  | double bits => exact Binary64.value?_ofBits bits
  | single bits => exact Binary64.value?_ofBits32 bits

namespace Binary64

variable {x : Binary64} {m n : Nat} {e : Int} {v : ℚ}

/-! ## Rounding a value -/

theorem roundScaled_nearest (m : Nat) (e : Int) : NearestNat (exactly m e) (roundScaled m e) := by
  rw [← exactly_quotient]
  exact divNearest_nearest _ (Nat.two_pow_pos _)

theorem exactly_nonneg (m : Nat) (e : Int) : 0 ≤ exactly m e :=
  mul_nonneg (Nat.cast_nonneg m) (two_zpow_pos e).le

theorem exactly_eq_zero_iff : exactly m e = 0 ↔ m = 0 := by
  rw [exactly, mul_eq_zero_iff_right (two_zpow_pos e).ne', Nat.cast_eq_zero]

/-- A number that is not below zero is rounded, and accepted below the bound. -/
theorem exists_magnitude (hv : x.value? = some v) (h : 0 ≤ v) :
    ∃ n, NearestNat v n ∧ x.magnitude =
      if n < Numeral.magnitudeBound then .ok n else .error (.outOfRange x) := by
  cases x with
  | nan => cases hv
  | infinite negative => cases hv
  | finite negative m e =>
    obtain rfl : (if negative then -exactly m e else exactly m e) = v := Option.some.inj hv
    have hsize := exactly_nonneg m e
    -- A negative number that is not below zero is negative zero.
    have hzero : negative = true → m = 0 := by
      rintro rfl
      rw [if_pos rfl] at h
      exact exactly_eq_zero_iff.1 (by linarith)
    have hvalue : (if negative then -exactly m e else exactly m e) = exactly m e := by
      cases negative with
      | false => rfl
      | true => rw [hzero rfl, exactly_eq_zero_iff.2 rfl, neg_zero, ite_self]
    have hsign : (negative && m != 0) = false := by
      cases negative with
      | false => rfl
      | true => rw [hzero rfl]; rfl
    refine ⟨roundScaled m e, ?_, ?_⟩
    · rw [hvalue]
      exact roundScaled_nearest m e
    · simp only [magnitude, hsign, Bool.false_eq_true, if_false]

/-- No number, an infinity and a number below zero are rejected. -/
theorem magnitude_of_negative (h : ∀ v, x.value? = some v → v < 0) :
    ∃ fault, x.magnitude = .error fault := by
  cases x with
  | nan => exact ⟨_, rfl⟩
  | infinite negative => exact ⟨_, rfl⟩
  | finite negative m e =>
    have hlt := h _ rfl
    have hsize := exactly_nonneg m e
    cases negative with
    | false => exact absurd hlt (not_lt.2 hsize)
    | true =>
      have hm : m ≠ 0 := by
        rintro rfl
        rw [if_pos rfl, exactly_eq_zero_iff.2 rfl, neg_zero] at hlt
        exact lt_irrefl 0 hlt
      exact ⟨.notNonNegative (.finite true m e), by simp [magnitude, hm]⟩

/-- The magnitude of an accepted number is the natural number nearest to it. -/
theorem nearest_of_magnitude (h : x.magnitude = .ok n) :
    ∃ v, x.value? = some v ∧ 0 ≤ v ∧ NearestNat v n := by
  by_contra hnone
  have hnegative : ∀ v, x.value? = some v → v < 0 := by
    intro v hv
    by_contra hge
    obtain ⟨m, hm, hmagnitude⟩ := exists_magnitude hv (not_lt.1 hge)
    rw [h] at hmagnitude
    split at hmagnitude
    · cases hmagnitude
      exact hnone ⟨v, hv, not_lt.1 hge, hm⟩
    · cases hmagnitude
  obtain ⟨fault, hfault⟩ := magnitude_of_negative hnegative
  rw [h] at hfault
  cases hfault

end Binary64

namespace Input

/-- The magnitude of a floating-point number, from its bits.  A value of zero or more is rounded to
the nearest natural number, the even one of two, and accepted below the bound; negative zero is
zero.  A value below zero, an infinity and what is no number are rejected.  Rounding keeps the
order, and a natural number below the bound is its own magnitude, as an integer is. -/
theorem float_magnitude :
    (∀ p : Pattern,
      (∀ v, p.value? = some v → 0 ≤ v →
        ∃ m, NearestNat v m ∧ (∀ m', NearestNat v m' → m' = m) ∧
          (m < Numeral.magnitudeBound → (float p.number).magnitude = .ok m) ∧
          (Numeral.magnitudeBound ≤ m → ∃ fault, (float p.number).magnitude = .error fault)) ∧
      ((∀ v, p.value? = some v → v < 0) → ∃ fault, (float p.number).magnitude = .error fault)) ∧
    (∀ (p q : Pattern) v w m n, p.value? = some v → q.value? = some w → v ≤ w →
      (float p.number).magnitude = .ok m → (float q.number).magnitude = .ok n → m ≤ n) ∧
    ∀ (p : Pattern) (n : Nat), n < Numeral.magnitudeBound → p.value? = some (n : ℚ) →
      (float p.number).magnitude = .ok n ∧ (integer n).magnitude = .ok n := by
  refine ⟨fun p => ⟨fun v hv h => ?_, fun h => ?_⟩, fun p q v w m n hv hw hle hm hn => ?_,
    fun p n hn hv => ?_⟩
  · rw [← p.value?_number] at hv
    obtain ⟨m, hm, hmagnitude⟩ := Binary64.exists_magnitude hv h
    refine ⟨m, hm, fun m' hm' => hm'.unique hm, fun hlt => ?_,
      fun hge => ⟨.outOfRange p.number, ?_⟩⟩
    · exact hmagnitude.trans (if_pos hlt)
    · exact hmagnitude.trans (if_neg (Nat.not_lt.2 hge))
  · rw [← p.value?_number] at h
    exact Binary64.magnitude_of_negative h
  · obtain ⟨v', hv', -, hnearest⟩ := Binary64.nearest_of_magnitude hm
    obtain ⟨w', hw', -, hnearest'⟩ := Binary64.nearest_of_magnitude hn
    rw [p.value?_number, hv] at hv'
    rw [q.value?_number, hw] at hw'
    cases hv'
    cases hw'
    exact hnearest.mono hnearest' hle
  · rw [← p.value?_number] at hv
    obtain ⟨m, hm, hmagnitude⟩ := Binary64.exists_magnitude hv (Nat.cast_nonneg n)
    obtain rfl := hm.unique (nearestNat_self n)
    exact ⟨hmagnitude.trans (if_pos hn), by simp [magnitude]⟩

/-- Two and a half in 64 bits goes down to the even number; the greatest power of two in 32 bits is
exact, and stays the greater of the two. -/
theorem half_down_and_power_exact :
    (float (.ofBits 0x4004000000000000)).magnitude = .ok 2 ∧
      (float (.ofBits32 0x7F000000)).magnitude = .ok (2 ^ 127) ∧
      (integer (2 ^ 127)).magnitude = .ok (2 ^ 127) ∧ 2 ≤ 2 ^ 127 := by
  have hhalf : (Pattern.double 0x4004000000000000).value? = some (5 / 2) := by
    have hsignificand : Format.double.significand 0x4004000000000000 = 5 * 2 ^ 50 := by decide
    have hexponent : Format.double.exponent 0x4004000000000000 = -51 := by decide
    refine (Format.value?_of_ne_greatest (by decide)).trans ?_
    show some (Binary64.exactly (Format.double.significand 0x4004000000000000)
      (Format.double.exponent 0x4004000000000000)) = _
    rw [hsignificand, hexponent, Binary64.exactly]
    norm_num
  have hpower : (Pattern.single 0x7F000000).value? = some ((2 ^ 127 : Nat) : ℚ) := by
    have hsignificand : Format.single.significand 0x7F000000 = 2 ^ 23 := by decide
    have hexponent : Format.single.exponent 0x7F000000 = 104 := by decide
    refine (Format.value?_of_ne_greatest (by decide)).trans ?_
    show some (Binary64.exactly (Format.single.significand 0x7F000000)
      (Format.single.exponent 0x7F000000)) = _
    rw [hsignificand, hexponent, Binary64.exactly]
    norm_num
  obtain ⟨hround, hmono, hexact⟩ := float_magnitude
  obtain ⟨m, -, hunique, hok, -⟩ := (hround _).1 _ hhalf (by norm_num)
  have htwo : NearestNat (5 / 2) 2 := ⟨by norm_num [abs_le], fun _ => rfl⟩
  obtain rfl := hunique 2 htwo
  have hdown := hok (by decide)
  obtain ⟨hsame, hinteger⟩ := hexact _ _ (by decide) hpower
  exact ⟨hdown, hsame, hinteger, hmono _ _ _ _ _ _ hhalf hpower (by norm_num) hdown hsame⟩

end Input
end NumberWords
