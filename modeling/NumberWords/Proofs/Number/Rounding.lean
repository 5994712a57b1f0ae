import Mathlib.Algebra.Order.Field.Power
import Mathlib.Algebra.Order.Ring.Rat
import Mathlib.Data.Nat.Log
import Mathlib.Tactic.FieldSimp
import Mathlib.Tactic.Linarith
import Mathlib.Tactic.Positivity
import Mathlib.Tactic.Ring
import NumberWords.Number.Binary64

/-!
Rounding to the nearest floating-point number.

The numbers with a mantissa of 53 bits and no upper bound on the exponent stand in one form each
(`Canonical`).  The nearest of them to a rational number is unique, with the even mantissa halfway
(`Nearest.unique`), and `Binary64.nearest` finds it: at the exponent it takes, every other number is
either a whole number of units or below the smallest mantissa, and so farther away.
-/

namespace NumberWords

/-! ## The nearest natural number -/

/-- Within half a unit, and even at half a unit. -/
structure NearestNat (q : ℚ) (m : Nat) : Prop where
  within : |q - m| ≤ 1 / 2
  even : |q - m| = 1 / 2 → m % 2 = 0

theorem divNearest_nearest (num : Nat) {den : Nat} (hden : 0 < den) :
    NearestNat ((num : ℚ) / den) (divNearest num den) := by
  have hpos : (0 : ℚ) < den := by exact_mod_cast hden
  let below : Nat := num / den
  let part : ℚ := (num % den : Nat) / den
  have hsplit : (num : ℚ) / den = below + part := by
    have hnat : (den * (num / den) + num % den : Nat) = num := Nat.div_add_mod num den
    have hrat : (den : ℚ) * below + (num % den : Nat) = num := by exact_mod_cast hnat
    rw [← hrat, add_div, mul_div_cancel_left₀ _ hpos.ne']
  have hnonneg : 0 ≤ part := by positivity
  have hone : part < 1 := by
    rw [div_lt_one hpos]
    exact_mod_cast Nat.mod_lt num hden
  have hhalf (a : Nat) (ha : a = num % den) :
      (2 * a < den ↔ part < 1 / 2) ∧ (den < 2 * a ↔ 1 / 2 < part) := by
    subst ha
    constructor
    · rw [div_lt_div_iff₀ hpos (by norm_num), one_mul, mul_comm]
      exact_mod_cast Iff.rfl
    · rw [div_lt_div_iff₀ (by norm_num) hpos, one_mul, mul_comm]
      exact_mod_cast Iff.rfl
  obtain ⟨hless, hmore⟩ := hhalf _ rfl
  have hbelow : |(below : ℚ) + part - below| = part := by
    rw [add_sub_cancel_left, abs_of_nonneg hnonneg]
  have habove : |(below : ℚ) + part - (below + 1 : Nat)| = 1 - part := by
    rw [Nat.cast_add, Nat.cast_one, abs_of_nonpos (by linarith)]
    ring
  rw [hsplit]
  show NearestNat _ (if 2 * (num % den) < den then below else if den < 2 * (num % den)
    then below + 1 else if below % 2 = 0 then below else below + 1)
  split
  · next h =>
    have hlt := hless.1 h
    exact ⟨by linarith, fun heq => by linarith⟩
  · next hnot =>
    have hge : 1 / 2 ≤ part := not_lt.1 fun hlt => hnot (hless.2 hlt)
    split
    · next h =>
      have hlt := hmore.1 h
      exact ⟨by linarith, fun heq => by linarith⟩
    · next hnot' =>
      have hle : part ≤ 1 / 2 := not_lt.1 fun hlt => hnot' (hmore.2 hlt)
      split
      · next heven => exact ⟨by linarith, fun _ => heven⟩
      · next hodd => exact ⟨by linarith, fun _ => by omega⟩

/-- Every other natural number is at least as far, and farther if the nearest one is odd. -/
theorem NearestNat.le {q : ℚ} {m : Nat} (h : NearestNat q m) (k : Nat) :
    |q - m| ≤ |q - k| ∧ (|q - k| = |q - m| → k = m ∨ m % 2 = 0) := by
  by_cases hk : k = m
  · rw [hk]
    exact ⟨le_rfl, fun _ => .inl rfl⟩
  · have hdistance : (1 : ℚ) ≤ |(m : ℚ) - k| := by
      have hint : (1 : ℤ) ≤ |(m : ℤ) - k| := Int.one_le_abs (by omega)
      exact_mod_cast hint
    have htriangle := abs_sub_le (m : ℚ) q k
    rw [abs_sub_comm (m : ℚ) q] at htriangle
    have hwithin := h.within
    refine ⟨by linarith, fun heq => .inr (h.even ?_)⟩
    linarith

/-- A greater number has no smaller nearest natural number. -/
theorem NearestNat.mono {q r : ℚ} {m n : Nat} (hm : NearestNat q m) (hn : NearestNat r n)
    (hle : q ≤ r) : m ≤ n := by
  by_contra hlt
  have hgap : ((n + 1 : Nat) : ℚ) ≤ m := by exact_mod_cast (by omega : n + 1 ≤ m)
  obtain ⟨hlow, -⟩ := abs_le.1 hm.within
  obtain ⟨-, hhigh⟩ := abs_le.1 hn.within
  push_cast at hgap
  -- Neighbours with the same number halfway between them, and both of them even.
  have hmid : q - m = -(1 / 2) := by linarith
  have hmid' : r - n = 1 / 2 := by linarith
  have heven := hm.even (by rw [hmid]; norm_num)
  have heven' := hn.even (by rw [hmid']; norm_num)
  have hnext : (m : ℚ) = (n + 1 : Nat) := by
    push_cast
    linarith
  have hnat : m = n + 1 := by exact_mod_cast hnext
  omega

theorem NearestNat.unique {q : ℚ} {m n : Nat} (hm : NearestNat q m) (hn : NearestNat q n) :
    m = n :=
  Nat.le_antisymm (hm.mono hn le_rfl) (hn.mono hm le_rfl)

theorem nearestNat_self (n : Nat) : NearestNat n n := by
  constructor
  · rw [sub_self, abs_zero]
    norm_num
  · intro h
    rw [sub_self, abs_zero] at h
    norm_num at h

namespace Binary64

/-! ## Numbers with any exponent -/

def exactly (m : Nat) (e : Int) : ℚ := m * 2 ^ e

/-- The form of a number whose exponent has no upper bound. -/
structure Canonical (m : Nat) (e : Int) : Prop where
  mantissa : m < 2 ^ 53
  exponent : leastExponent ≤ e
  normal : 2 ^ 52 ≤ m ∨ e = leastExponent

/-- No number is nearer to `v`, and one as near is itself or comes after an even mantissa. -/
structure Nearest (v : ℚ) (m : Nat) (e : Int) : Prop where
  canonical : Canonical m e
  least : ∀ m' e', Canonical m' e' → |v - exactly m e| ≤ |v - exactly m' e'|
  tie : ∀ m' e', Canonical m' e' → |v - exactly m' e'| = |v - exactly m e| →
    exactly m' e' = exactly m e ∨ m % 2 = 0

variable {v : ℚ} {m m' : Nat} {e e' : Int}

theorem two_zpow_pos (e : Int) : (0 : ℚ) < 2 ^ e := zpow_pos two_pos e

/-- A number with a greater exponent is a whole number of units. -/
theorem exactly_of_le (h : e ≤ e') (m' : Nat) :
    exactly m' e' = (m' * 2 ^ (e' - e).toNat : Nat) * 2 ^ e := by
  have hsplit : (2 : ℚ) ^ e' = 2 ^ (e' - e).toNat * 2 ^ e := by
    rw [← zpow_natCast, Int.toNat_of_nonneg (by omega), ← zpow_add₀ two_ne_zero]
    congr 1
    omega
  rw [exactly, hsplit, Nat.cast_mul, Nat.cast_pow, Nat.cast_ofNat]
  ring

/-- A number with a smaller exponent is below every normal one. -/
theorem exactly_lt_of_lt (h : e' < e) (hm' : m' < 2 ^ 53) (hm : 2 ^ 52 ≤ m) :
    exactly m' e' < exactly m e := by
  have hunit : (2 : ℚ) ^ e' * 2 ≤ 2 ^ e := by
    rw [← zpow_add_one₀ two_ne_zero]
    exact zpow_le_zpow_right₀ one_le_two h
  have hpos := two_zpow_pos e'
  have hm'' : (m' : ℚ) < 2 ^ 53 := by exact_mod_cast hm'
  have hm''' : (2 : ℚ) ^ 52 ≤ m := by exact_mod_cast hm
  unfold exactly
  calc (m' : ℚ) * 2 ^ e' < 2 ^ 53 * 2 ^ e' := mul_lt_mul_of_pos_right hm'' hpos
    _ = 2 ^ 52 * (2 ^ e' * 2) := by ring
    _ ≤ 2 ^ 52 * 2 ^ e := mul_le_mul_of_nonneg_left hunit (by positivity)
    _ ≤ m * 2 ^ e := mul_le_mul_of_nonneg_right hm''' (two_zpow_pos e).le

theorem Canonical.le_exponent (h : Canonical m e) (h' : Canonical m' e')
    (hle : exactly m e ≤ exactly m' e') : e ≤ e' := by
  by_contra hlt
  have hnormal : 2 ^ 52 ≤ m := by
    rcases h.normal with hm | he
    · exact hm
    · have := h'.exponent
      omega
  exact absurd hle (not_le.2 (exactly_lt_of_lt (by omega) h'.mantissa hnormal))

theorem Canonical.unique (h : Canonical m e) (h' : Canonical m' e')
    (heq : exactly m e = exactly m' e') : m = m' ∧ e = e' := by
  have he : e = e' := le_antisymm (h.le_exponent h' heq.le) (h'.le_exponent h heq.ge)
  refine ⟨?_, he⟩
  rw [he] at heq
  exact_mod_cast mul_right_cancel₀ (two_zpow_pos e').ne' heq

structure Fits (v : ℚ) (e : Int) : Prop where
  exponent : leastExponent ≤ e
  lt : v / 2 ^ e < 2 ^ 53
  normal : 2 ^ 52 ≤ v / 2 ^ e ∨ e = leastExponent

variable {x : Nat}

theorem distance_unit (v : ℚ) (x : ℚ) (e : Int) : |v - x * 2 ^ e| = |v / 2 ^ e - x| * 2 ^ e := by
  have hpos := two_zpow_pos e
  rw [← abs_of_pos hpos, ← abs_mul, abs_of_pos hpos, sub_mul, div_mul_cancel₀ _ hpos.ne']

/-- The nearest whole number of units at a fitting exponent is nearer than all other numbers. -/
theorem nearest_of_fits (h : Fits v e) (hx : NearestNat (v / 2 ^ e) x) (hc' : Canonical m' e') :
    |v - exactly x e| ≤ |v - exactly m' e'| ∧
      (|v - exactly m' e'| = |v - exactly x e| → exactly m' e' = exactly x e ∨ x % 2 = 0) := by
  have hpos := two_zpow_pos e
  rcases le_or_gt e e' with hle | hlt
  · -- On the grid of the units the nearest natural number decides.
    obtain ⟨hnear, htie⟩ := hx.le (m' * 2 ^ (e' - e).toNat)
    rw [exactly_of_le hle, exactly, distance_unit, distance_unit]
    refine ⟨mul_le_mul_of_nonneg_right hnear hpos.le, fun heq => ?_⟩
    rcases htie (mul_right_cancel₀ hpos.ne' heq) with hk | heven
    · exact .inl (by rw [hk])
    · exact .inr heven
  · -- Below the smallest mantissa everything is farther away than that mantissa.
    have hnormal : (2 : ℚ) ^ 52 ≤ v / 2 ^ e := by
      rcases h.normal with hn | he
      · exact hn
      · have hexponent := hc'.exponent
        omega
    have hbelow : exactly m' e' < exactly (2 ^ 52) e :=
      exactly_lt_of_lt hlt hc'.mantissa le_rfl
    have hv : exactly (2 ^ 52) e ≤ v := by
      rw [exactly, Nat.cast_pow, Nat.cast_ofNat]
      exact (le_div_iff₀ hpos).1 hnormal
    have hsmallest : |v - exactly x e| ≤ |v - exactly (2 ^ 52) e| := by
      rw [exactly, exactly, distance_unit, distance_unit]
      exact mul_le_mul_of_nonneg_right (hx.le (2 ^ 52)).1 hpos.le
    have hfarther : |v - exactly (2 ^ 52) e| < |v - exactly m' e'| := by
      rw [abs_of_nonneg (by linarith), abs_of_nonneg (by linarith)]
      linarith
    exact ⟨by linarith, fun heq => absurd heq (by linarith)⟩

/-- A mantissa rounded up to the next power of two goes with the next exponent. -/
theorem exactly_carry (e : Int) : exactly (2 ^ 53) e = exactly (2 ^ 52) (e + 1) := by
  rw [exactly, exactly, Nat.cast_pow, Nat.cast_pow, Nat.cast_ofNat, zpow_add_one₀ two_ne_zero]
  ring

theorem Fits.nearest (h : Fits v e) (hx : NearestNat (v / 2 ^ e) x) :
    x ≤ 2 ^ 53 ∧ (x < 2 ^ 53 → Nearest v x e) ∧
      (x = 2 ^ 53 → Nearest v (2 ^ 52) (e + 1)) := by
  obtain ⟨hlow, hhigh⟩ := abs_le.1 hx.within
  have hexponent := h.exponent
  refine ⟨?_, fun hlt => ?_, fun heq => ?_⟩
  · have hlt : (x : ℚ) < (2 ^ 53 + 1 : Nat) := by
      have := h.lt
      rw [Nat.cast_add, Nat.cast_pow, Nat.cast_ofNat, Nat.cast_one]
      linarith
    have hnat : x < 2 ^ 53 + 1 := by exact_mod_cast hlt
    omega
  · refine ⟨⟨hlt, hexponent, ?_⟩, fun m' e' hc => (nearest_of_fits h hx hc).1,
      fun m' e' hc => (nearest_of_fits h hx hc).2⟩
    rcases h.normal with hnormal | he
    · have hge : ((2 ^ 52 : Nat) : ℚ) < (x + 1 : Nat) := by
        rw [Nat.cast_pow, Nat.cast_ofNat, Nat.cast_add, Nat.cast_one]
        linarith
      have hnat : 2 ^ 52 < x + 1 := by exact_mod_cast hge
      exact .inl (by omega)
    · exact .inr he
  · refine ⟨⟨by decide, by omega, .inl le_rfl⟩, fun m' e' hc => ?_, fun _ _ _ _ => .inr (by decide)⟩
    rw [← exactly_carry, ← heq]
    exact (nearest_of_fits h hx hc).1

/-! ## Uniqueness -/

theorem Nearest.exactly_le (h : Nearest v m e) (h' : Nearest v m' e') :
    exactly m' e' ≤ exactly m e := by
  by_contra hlt
  rw [not_le] at hlt
  have hpos := two_zpow_pos e
  have hle := h.canonical.le_exponent h'.canonical hlt.le
  have hdistance : |v - exactly m' e'| = |v - exactly m e| :=
    le_antisymm (h'.least m e h.canonical) (h.least m' e' h'.canonical)
  -- Both mantissas are even, so the next number after the smaller one has the same exponent.
  have heven : m % 2 = 0 :=
    (h.tie m' e' h'.canonical hdistance).resolve_left hlt.ne'
  have heven' : m' % 2 = 0 :=
    (h'.tie m e h.canonical hdistance.symm).resolve_left hlt.ne
  have hmantissa := h.canonical.mantissa
  have htwo : 2 ^ 53 % 2 = 0 := by decide
  have hnext : Canonical (m + 1) e := by
    refine ⟨by omega, h.canonical.exponent, ?_⟩
    rcases h.canonical.normal with hm | he
    · exact .inl (by omega)
    · exact .inr he
  obtain ⟨k, hk⟩ : ∃ k, k = m' * 2 ^ (e' - e).toNat := ⟨_, rfl⟩
  have hkeven : k % 2 = 0 := by
    rw [hk, Nat.mul_mod, heven', Nat.zero_mul, Nat.zero_mod]
  have hnear := h.least (m + 1) e hnext
  rw [exactly_of_le hle, ← hk] at hlt hdistance
  unfold exactly at hlt hdistance hnear
  have hmk : m < k := by exact_mod_cast lt_of_mul_lt_mul_right hlt hpos.le
  have hgap : ((m + 2 : Nat) : ℚ) * 2 ^ e ≤ k * 2 ^ e :=
    mul_le_mul_of_nonneg_right (by exact_mod_cast (by omega : m + 2 ≤ k)) hpos.le
  have hmiddle : v - k * 2 ^ e = -(v - m * 2 ^ e) :=
    (abs_eq_abs.1 hdistance).resolve_left (by linarith)
  push_cast at hgap hnear
  rw [abs_of_nonneg (by linarith), abs_of_nonneg (by linarith)] at hnear
  linarith

theorem Nearest.unique (h : Nearest v m e) (h' : Nearest v m' e') : m = m' ∧ e = e' :=
  h.canonical.unique h'.canonical (le_antisymm (h'.exactly_le h) (h.exactly_le h'))

/-! ## The rounding of a quotient -/

/-- A power with an integer exponent, as a quotient of powers of which one is one. -/
theorem zpow_eq_div (b : ℚ) (e : Int) : b ^ e = b ^ e.toNat / b ^ (-e).toNat := by
  rcases le_total 0 e with h | h
  · rw [Int.toNat_of_nonpos (by omega : -e ≤ 0), pow_zero, div_one, ← zpow_natCast,
      Int.toNat_of_nonneg h]
  · rw [Int.toNat_of_nonpos h, pow_zero, one_div, ← zpow_natCast, Int.toNat_of_nonneg (by omega),
      zpow_neg, inv_inv]

theorem exactly_quotient (m : Nat) (e : Int) :
    ((m * 2 ^ e.toNat : Nat) : ℚ) / (2 ^ (-e).toNat : Nat) = exactly m e := by
  rw [Nat.cast_mul, Nat.cast_pow, Nat.cast_pow, Nat.cast_ofNat, exactly, zpow_eq_div, mul_div_assoc]

theorem scaled_quotient (num den : Nat) (e : Int) :
    ((num * 2 ^ (-e).toNat : Nat) : ℚ) / (den * 2 ^ e.toNat : Nat)
      = (num : ℚ) / den / 2 ^ e := by
  rw [Nat.cast_mul, Nat.cast_mul, Nat.cast_pow, Nat.cast_pow, Nat.cast_ofNat, zpow_eq_div,
    div_div_eq_mul_div, div_mul_eq_mul_div, div_div]

/-- The exponent that `nearest` takes before it looks at the least one. -/
def fit (num den : Nat) : Int :=
  let low : Int := (num.log2 : Int) - den.log2 - 53
  if 2 ^ 53 ≤ num * 2 ^ (-low).toNat / (den * 2 ^ low.toNat) then low + 1 else low

/-- The logarithms bound a quotient by two powers of two, one fourth of the other. -/
theorem log2_bounds {num den : Nat} (hnum : 0 < num) (hden : 0 < den) {low : Int}
    (hlow : low = (num.log2 : Int) - den.log2 - 53) :
    2 ^ 52 ≤ (num : ℚ) / den / 2 ^ low ∧ (num : ℚ) / den / 2 ^ low < 2 ^ 54 := by
  have hden' : (0 : ℚ) < den := by exact_mod_cast hden
  have hpos := two_zpow_pos low
  have hsplit : (2 : ℚ) ^ low * 2 ^ 53 * 2 ^ den.log2 = 2 ^ num.log2 := by
    rw [hlow, ← zpow_natCast, ← zpow_natCast, ← zpow_natCast, ← zpow_add₀ two_ne_zero,
      ← zpow_add₀ two_ne_zero]
    congr 1
    push_cast
    ring
  have hnumLow : (2 : ℚ) ^ num.log2 ≤ num := by exact_mod_cast Nat.log2_self_le hnum.ne'
  have hnumHigh : (num : ℚ) < 2 ^ (num.log2 + 1) := by exact_mod_cast Nat.lt_log2_self
  have hdenLow : (2 : ℚ) ^ den.log2 ≤ den := by exact_mod_cast Nat.log2_self_le hden.ne'
  have hdenHigh : (den : ℚ) < 2 ^ (den.log2 + 1) := by exact_mod_cast Nat.lt_log2_self
  constructor
  · rw [le_div_iff₀ hpos, le_div_iff₀ hden']
    calc (2 : ℚ) ^ 52 * 2 ^ low * den ≤ 2 ^ 52 * 2 ^ low * 2 ^ (den.log2 + 1) := by
          exact mul_le_mul_of_nonneg_left hdenHigh.le (by positivity)
      _ = 2 ^ low * 2 ^ 53 * 2 ^ den.log2 := by ring
      _ ≤ num := by rw [hsplit]; exact hnumLow
  · rw [div_lt_iff₀ hpos, div_lt_iff₀ hden']
    calc (num : ℚ) < 2 ^ (num.log2 + 1) := hnumHigh
      _ = 2 ^ 54 * 2 ^ low * 2 ^ den.log2 := by rw [pow_succ, ← hsplit]; ring
      _ ≤ 2 ^ 54 * 2 ^ low * den := mul_le_mul_of_nonneg_left hdenLow (by positivity)

/-- The floor of a scaled quotient reaches a natural number where the quotient does. -/
theorem le_floor_iff (num : Nat) {den : Nat} (hden : 0 < den) (e : Int) (n : Nat) :
    n ≤ num * 2 ^ (-e).toNat / (den * 2 ^ e.toNat) ↔ (n : ℚ) ≤ (num : ℚ) / den / 2 ^ e := by
  have hunits : 0 < den * 2 ^ e.toNat := Nat.mul_pos hden (Nat.two_pow_pos _)
  rw [← scaled_quotient, Nat.le_div_iff_mul_le hunits, le_div_iff₀ (by exact_mod_cast hunits)]
  exact_mod_cast Iff.rfl

theorem fit_bounds {num den : Nat} (hnum : 0 < num) (hden : 0 < den) :
    2 ^ 52 ≤ (num : ℚ) / den / 2 ^ fit num den ∧ (num : ℚ) / den / 2 ^ fit num den < 2 ^ 53 := by
  obtain ⟨low, hlow⟩ : ∃ low : Int, low = (num.log2 : Int) - den.log2 - 53 := ⟨_, rfl⟩
  obtain ⟨hmin, hmax⟩ := log2_bounds hnum hden hlow
  have hfloor := le_floor_iff num hden low (2 ^ 53)
  rw [Nat.cast_pow, Nat.cast_ofNat] at hfloor
  unfold fit
  simp only [← hlow]
  by_cases hlarge : 2 ^ 53 ≤ (num : ℚ) / den / 2 ^ low
  · rw [if_pos (hfloor.2 hlarge), zpow_add_one₀ two_ne_zero, ← div_div]
    constructor <;> linarith
  · rw [if_neg (mt hfloor.1 hlarge)]
    exact ⟨hmin, not_le.1 hlarge⟩

theorem fits_max {num den : Nat} (hnum : 0 < num) (hden : 0 < den) :
    Fits ((num : ℚ) / den) (max (fit num den) leastExponent) := by
  obtain ⟨hmin, hmax⟩ := fit_bounds hnum hden
  rcases le_total leastExponent (fit num den) with hle | hle
  · rw [max_eq_left hle]
    exact ⟨hle, hmax, .inl hmin⟩
  · rw [max_eq_right hle]
    refine ⟨le_rfl, lt_of_le_of_lt ?_ hmax, .inr rfl⟩
    exact div_le_div_of_nonneg_left (by positivity) (two_zpow_pos _)
      (zpow_le_zpow_right₀ one_le_two hle)

/-- The floating-point number for a value: the nearest one, and infinity where that is past the
greatest. -/
def Rounds (negative : Bool) (v : ℚ) (x : Binary64) : Prop :=
  ∃ m e, Nearest v m e ∧
    x = if e ≤ greatestExponent then .finite negative m e else .infinite negative

theorem Rounds.unique {negative : Bool} {x y : Binary64} (hx : Rounds negative v x)
    (hy : Rounds negative v y) : x = y := by
  obtain ⟨m, e, hm, rfl⟩ := hx
  obtain ⟨m', e', hm', rfl⟩ := hy
  obtain ⟨rfl, rfl⟩ := hm.unique hm'
  rfl

theorem canonical_zero : Canonical 0 leastExponent := ⟨by decide, le_rfl, .inr rfl⟩

theorem rounds_zero (negative : Bool) : Rounds negative 0 (zero negative) := by
  refine ⟨0, leastExponent, ⟨canonical_zero, fun m' e' _ => ?_, fun _ _ _ _ => .inr rfl⟩, rfl⟩
  rw [exactly, Nat.cast_zero, zero_mul, sub_zero, abs_zero]
  exact abs_nonneg _

/-- The quotient of two natural numbers is rounded to the nearest floating-point number. -/
theorem nearest_rounds (negative : Bool) (num : Nat) {den : Nat} (hden : 0 < den) :
    Rounds negative ((num : ℚ) / den) (nearest negative num den) := by
  rcases Nat.eq_zero_or_pos num with rfl | hnum
  · rw [Nat.cast_zero, zero_div]
    exact rounds_zero negative
  · obtain ⟨e, he⟩ : ∃ e, e = max (fit num den) leastExponent := ⟨_, rfl⟩
    obtain ⟨m, hm⟩ : ∃ m, m = divNearest (num * 2 ^ (-e).toNat) (den * 2 ^ e.toNat) :=
      ⟨_, rfl⟩
    have hfits : Fits ((num : ℚ) / den) e := he ▸ fits_max hnum hden
    have hx : NearestNat ((num : ℚ) / den / 2 ^ e) m := by
      rw [hm, ← scaled_quotient]
      exact divNearest_nearest _ (Nat.mul_pos hden (Nat.two_pow_pos _))
    obtain ⟨hle, hlt, heq⟩ := hfits.nearest hx
    have hnearest : nearest negative num den =
        if m = 2 ^ 53 then
          if greatestExponent < e + 1 then .infinite negative
          else .finite negative (2 ^ 52) (e + 1)
        else if greatestExponent < e then .infinite negative else .finite negative m e := by
      rw [hm, he]
      exact if_neg hnum.ne'
    rw [hnearest]
    by_cases hcarry : m = 2 ^ 53
    · rw [if_pos hcarry]
      refine ⟨2 ^ 52, e + 1, heq hcarry, ?_⟩
      by_cases hgreat : greatestExponent < e + 1
      · rw [if_pos hgreat, if_neg (not_le.2 hgreat)]
      · rw [if_neg hgreat, if_pos (not_lt.1 hgreat)]
    · rw [if_neg hcarry]
      refine ⟨m, e, hlt (by omega), ?_⟩
      by_cases hgreat : greatestExponent < e
      · rw [if_pos hgreat, if_neg (not_le.2 hgreat)]
      · rw [if_neg hgreat, if_pos (not_lt.1 hgreat)]

/-! ## Bounds -/

/-- Rounding does not go below a number that can be had. -/
theorem Nearest.le_of_le (h : Nearest v m e) (hc : Canonical m' e') (hle : exactly m' e' ≤ v) :
    exactly m' e' ≤ exactly m e := by
  by_contra hlt
  rw [not_le] at hlt
  have hleast := h.least m' e' hc
  rw [abs_of_nonneg (by linarith), abs_of_nonneg (by linarith)] at hleast
  linarith

theorem Rounds.eq_infinite {negative : Bool} {y : Binary64} (h : Rounds negative v y)
    (hv : 2 ^ 1024 ≤ v) : y = .infinite negative := by
  obtain ⟨m, e, hnearest, rfl⟩ := h
  have hpast : Canonical (2 ^ 52) (greatestExponent + 1) :=
    ⟨by decide, by decide, .inl le_rfl⟩
  have hvalue : exactly (2 ^ 52) (greatestExponent + 1) = 2 ^ 1024 := by
    rw [exactly, Nat.cast_pow, Nat.cast_ofNat, greatestExponent, ← zpow_natCast, ← zpow_natCast,
      ← zpow_add₀ two_ne_zero]
    rfl
  have hle := hnearest.le_of_le hpast (hvalue.trans_le hv)
  have hexponent := hpast.le_exponent hnearest.canonical hle
  rw [if_neg (by omega)]

/-- Less than half the smallest positive number is rounded to zero. -/
theorem rounds_zero_of_lt (negative : Bool) (hv : 0 ≤ v) (hlt : v * 2 < 2 ^ leastExponent) :
    Rounds negative v (zero negative) := by
  refine ⟨0, leastExponent, ⟨canonical_zero, fun m' e' hc => ?_, fun _ _ _ _ => .inr rfl⟩, rfl⟩
  rw [exactly, Nat.cast_zero, zero_mul, sub_zero, abs_of_nonneg hv]
  rcases Nat.eq_zero_or_pos m' with rfl | hpos
  · rw [exactly, Nat.cast_zero, zero_mul, sub_zero, abs_of_nonneg hv]
  · have hunit : (2 : ℚ) ^ leastExponent ≤ exactly m' e' := by
      have hone : (1 : ℚ) ≤ m' := by exact_mod_cast hpos
      calc (2 : ℚ) ^ leastExponent ≤ 2 ^ e' := zpow_le_zpow_right₀ one_le_two hc.exponent
        _ ≤ m' * 2 ^ e' := le_mul_of_one_le_left (two_zpow_pos e').le hone
    rw [abs_of_nonpos (by linarith)]
    linarith

end Binary64
end NumberWords
