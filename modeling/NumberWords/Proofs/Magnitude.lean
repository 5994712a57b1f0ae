import Mathlib.Data.List.Induction
import NumberWords.Magnitude
import NumberWords.Proofs.Json.Lexical
import NumberWords.Proofs.Number.Numeral

/-!
The magnitude of a text.

A text with the digits of an integer has that integer as its magnitude, or none: the reader of
integers takes it below the bound, and above the bound rounding does not bring it back
(`Rounds.magnitude_of_le`).  Every other floating-point numeral has the magnitude of the nearest
floating-point number.
-/

namespace NumberWords

open Numeral (Digits natural Means Meaning)

/-! ## Trimming -/

namespace Text

variable {before core after cs : List Char}

def Blanks (cs : List Char) : Prop := ∀ c ∈ cs, isBlank c = true

theorem dropWhile_blanks (h : Blanks before) (cs : List Char) :
    (before ++ cs).dropWhile isBlank = cs.dropWhile isBlank :=
  List.dropWhile_append_of_pos h

theorem dropWhile_of_head (h : ∀ c ∈ cs.head?, isBlank c = false) : cs.dropWhile isBlank = cs := by
  cases cs with
  | nil => rfl
  | cons c cs => exact List.dropWhile_cons_of_neg (by simp [h c rfl])

/-- What stands between blanks, with no blank at its ends. -/
theorem trimChars_eq (hbefore : Blanks before) (hafter : Blanks after)
    (hhead : ∀ c ∈ core.head?, isBlank c = false)
    (hlast : ∀ c ∈ core.getLast?, isBlank c = false) :
    trimChars (before ++ (core ++ after)) = core := by
  have hreverse : Blanks after.reverse := fun c hc => hafter c (List.mem_reverse.1 hc)
  unfold trimChars
  rw [dropWhile_blanks hbefore]
  cases core with
  | nil =>
    have hall : after.dropWhile isBlank = [] := List.dropWhile_eq_nil_iff.2 hafter
    rw [List.nil_append, hall]
    rfl
  | cons c core =>
    rw [List.cons_append, List.dropWhile_cons_of_neg (by simp [hhead c rfl]), ← List.cons_append,
      List.reverse_append, dropWhile_blanks hreverse, dropWhile_of_head, List.reverse_reverse]
    rwa [List.head?_reverse]

/-- A text is what trimming leaves of it between blanks. -/
theorem exists_trimChars (cs : List Char) :
    ∃ before after, Blanks before ∧ Blanks after ∧ cs = before ++ (trimChars cs ++ after) := by
  refine ⟨cs.takeWhile isBlank, ((cs.dropWhile isBlank).reverse.takeWhile isBlank).reverse,
    fun c hc => List.mem_takeWhile_imp hc,
    fun c hc => List.mem_takeWhile_imp (List.mem_reverse.1 hc), ?_⟩
  have hinner : trimChars cs ++ ((cs.dropWhile isBlank).reverse.takeWhile isBlank).reverse
      = cs.dropWhile isBlank := by
    rw [trimChars, ← List.reverse_append, List.takeWhile_append_dropWhile, List.reverse_reverse]
  rw [hinner, List.takeWhile_append_dropWhile]

/-- Blanks are controls, the space, and characters that are not of ASCII. -/
theorem toNat_of_isBlank {c : Char} (h : isBlank c = true) :
    c.toNat ≤ 13 ∨ c.toNat = 32 ∨ 128 ≤ c.toNat := by
  obtain ⟨r, hr, hc⟩ := List.any_eq_true.1 h
  simp only [Bool.and_eq_true, decide_eq_true_eq] at hc
  have hrange : ∀ r ∈ blankRanges, r.2 ≤ 13 ∨ (r.1 = 32 ∧ r.2 = 32) ∨ 128 ≤ r.1 := by decide
  have := hrange r hr
  omega

theorem isBlank_of_isDigit {c : Char} (h : c.isDigit = true) : isBlank c = false := by
  obtain ⟨hlow, hhigh⟩ := Numeral.toNat_of_isDigit h
  rw [Bool.eq_false_iff]
  intro hblank
  have := toNat_of_isBlank hblank
  omega

end Text

/-! ## Digits -/

namespace Numeral

variable {cs ds : List Char} {n : Nat}

theorem natural_toDigits (n : Nat) : natural (Nat.toDigits 10 n) = n :=
  Nat.ofDigitChars_toDigits (by decide) (by decide)

theorem digits_toDigits (n : Nat) : Digits (Nat.toDigits 10 n) := Json.all_isDigit_toDigits n

theorem toDigits_of_isDigit {c : Char} (h : c.isDigit = true) :
    Nat.toDigits 10 (c.toNat - 48) = [c] := by
  obtain ⟨hlow, hhigh⟩ := toNat_of_isDigit h
  have hchars : ∀ k < 10, k.digitChar = Char.ofNat (48 + k) := by decide
  rw [Nat.toDigits_of_lt_base (by omega), hchars _ (by omega), Nat.add_sub_cancel' hlow,
    Char.ofNat_toNat]

theorem natural_concat (ds : List Char) (c : Char) :
    natural (ds ++ [c]) = 10 * natural ds + (c.toNat - 48) := by
  rw [natural, Nat.ofDigitChars_append, Nat.ofDigitChars_cons, Nat.ofDigitChars_nil]
  rfl

/-- A run of digits is zeros and the digits of its number. -/
theorem exists_zeros (h : Digits ds) (hne : ds ≠ []) :
    ∃ k, ds = List.replicate k '0' ++ Nat.toDigits 10 (natural ds) := by
  induction ds using List.reverseRecOn with
  | nil => exact absurd rfl hne
  | append_singleton ds c ih =>
    have hc : c.isDigit = true := h c (List.mem_append_right ds List.mem_cons_self)
    have hlast := toDigits_of_isDigit hc
    obtain ⟨hlow, hhigh⟩ := toNat_of_isDigit hc
    rw [natural_concat]
    by_cases hempty : ds = []
    · exact ⟨0, by simp [hempty, natural, hlast]⟩
    · obtain ⟨k, hk⟩ := ih (fun c' hc' => h c' (List.mem_append_left _ hc')) hempty
      rcases Nat.eq_zero_or_pos (natural ds) with hzero | hpos
      · rw [hzero] at hk
        refine ⟨k + 1, ?_⟩
        rw [hzero, Nat.mul_zero, Nat.zero_add, hlast, hk, List.replicate_succ']
        rfl
      · refine ⟨k, ?_⟩
        rw [← Nat.toDigits_append_toDigits (by decide) hpos (by omega), hlast, ← List.append_assoc,
          ← hk]

theorem natural_zeros (k : Nat) (ds : List Char) :
    natural (List.replicate k '0' ++ ds) = natural ds := by
  rw [natural, Nat.ofDigitChars_append, Nat.ofDigitChars_replicate_zero, Nat.mul_zero]
  rfl

def Plus (cs : List Char) : Prop := cs = [] ∨ cs = ['+']

theorem Plus.sign {plus : List Char} (h : Plus plus) : Sign plus false := by
  rcases h with rfl | rfl
  · exact .none
  · exact .plus

theorem magnitude?_digits {plus : List Char} (hplus : Plus plus) (hds : Digits ds) (hne : ds ≠ []) :
    magnitude? (plus ++ ds) = (some (natural ds)).filter (· < magnitudeBound) := by
  have hnatural := natural?_of_digits hds hne
  rcases hplus with rfl | rfl
  · cases ds with
    | nil => exact absurd rfl hne
    | cons c ds =>
      have hc : c ≠ '+' := by
        rintro rfl
        cases hds '+' List.mem_cons_self
      simp [magnitude?, hc, hnatural]
  · simp [magnitude?, hnatural]

theorem magnitude?_eq_some (h : magnitude? cs = some n) :
    n < magnitudeBound ∧ ∃ plus ds, Plus plus ∧ Digits ds ∧ ds ≠ [] ∧ cs = plus ++ ds ∧
      natural ds = n := by
  unfold magnitude? at h
  obtain ⟨hnatural, hlt⟩ := Option.filter_eq_some_iff.1 h
  refine ⟨by simpa using hlt, ?_⟩
  split at hnatural
  · next ds =>
    obtain ⟨hds, hne, hn⟩ := natural?_eq_some_iff.1 hnatural
    exact ⟨['+'], ds, .inr rfl, hds, hne, rfl, hn⟩
  · obtain ⟨hds, hne, hn⟩ := natural?_eq_some_iff.1 hnatural
    exact ⟨[], cs, .inl rfl, hds, hne, rfl, hn⟩

/-- An integer is a floating-point numeral of its own value. -/
theorem means_digits {sign : List Char} {negative : Bool} (hsign : Sign sign negative)
    (hds : Digits ds) (hne : ds ≠ []) :
    Means (sign ++ ds) (.value negative (natural ds)) := by
  have hvalue : Unsigned negative (ds ++ [])
      (.value negative (natural ds * 10 ^ ((0 : Int) - 0))) := .value (.whole hds hne) .none
  rw [List.append_nil, sub_zero, zpow_zero, mul_one] at hvalue
  exact .signed hsign hvalue

end Numeral

/-! ## Magnitudes of rounded numbers -/

namespace Binary64

variable {v : ℚ} {x : Binary64}

theorem roundScaled_natural (m k : Nat) : roundScaled m k = m * 2 ^ k := by
  have hone : divNearest (m * 2 ^ k) 1 = m * 2 ^ k := by simp [divNearest, Nat.mod_one]
  rw [roundScaled, Int.toNat_natCast, Int.toNat_neg_natCast]
  exact hone

/-- Rounding does not bring a value below the bound of magnitudes. -/
theorem Rounds.magnitude_of_le (h : Rounds false v x) (hv : (Numeral.magnitudeBound : ℚ) ≤ v) :
    x.magnitude = .error (.outOfRange x) := by
  obtain ⟨m, e, hnearest, rfl⟩ := h
  have hbound : Canonical (2 ^ 52) 76 := ⟨by decide, by decide, .inl le_rfl⟩
  have hvalue : exactly (2 ^ 52) 76 = Numeral.magnitudeBound := by
    rw [exactly, Numeral.magnitudeBound]
    norm_num
  have hle := hnearest.le_of_le hbound (hvalue.trans_le hv)
  have hexponent := hbound.le_exponent hnearest.canonical hle
  split
  · obtain ⟨k, rfl⟩ := Int.eq_ofNat_of_zero_le (by omega : 0 ≤ e)
    have hnat : Numeral.magnitudeBound ≤ m * 2 ^ k := by
      rw [hvalue, exactly, zpow_natCast] at hle
      exact_mod_cast hle
    simp only [magnitude, Bool.false_and, Bool.false_eq_true, if_false]
    rw [roundScaled_natural, if_neg (Nat.not_lt.2 hnat)]
  · rfl

/-- Rounding does not bring a value of one or more to zero. -/
theorem Rounds.magnitude_of_negative (h : Rounds true v x) (hv : 1 ≤ v) :
    x.magnitude = .error (.notNonNegative x) := by
  obtain ⟨m, e, hnearest, rfl⟩ := h
  have hone : Canonical (2 ^ 52) (-52) := ⟨by decide, by decide, .inl le_rfl⟩
  have hvalue : exactly (2 ^ 52) (-52) = 1 := by
    rw [exactly]
    norm_num
  have hle := hnearest.le_of_le hone (hvalue.trans_le hv)
  have hm : m ≠ 0 := by
    rintro rfl
    rw [hvalue, exactly, Nat.cast_zero, zero_mul] at hle
    linarith
  split
  · simp [magnitude, hm]
  · rfl

end Binary64

/-! ## Texts of integers -/

/-- White space, an optional plus sign, zeros, the digits of `n`, and white space. -/
def IsIntegerText (n : Nat) (s : String) : Prop :=
  ∃ before plus zeros after, Text.Blanks before ∧ Numeral.Plus plus ∧ Text.Blanks after ∧
    s.toList = before ++ (plus ++ (List.replicate zeros '0' ++ Nat.toDigits 10 n) ++ after)

open Numeral Text

variable {n : Nat} {s : String} {before after plus ds cs : List Char}

theorem toDigits_zeros (zeros n : Nat) :
    ∃ ds, ds = List.replicate zeros '0' ++ Nat.toDigits 10 n ∧ Digits ds ∧ ds ≠ [] ∧
      natural ds = n := by
  refine ⟨_, rfl, fun c hc => ?_, by simp [Nat.toDigits_ne_nil], ?_⟩
  · rcases List.mem_append.1 hc with hzero | hdigit
    · rw [List.eq_of_mem_replicate hzero]
      rfl
    · exact digits_toDigits n c hdigit
  · rw [natural_zeros, natural_toDigits]

theorem isBlank_last (hds : Digits ds) (hne : ds ≠ []) (front : List Char) :
    ∀ c ∈ (front ++ ds).getLast?, isBlank c = false := by
  intro c hc
  rw [List.getLast?_append_of_ne_nil front hne] at hc
  exact isBlank_of_isDigit (hds c (List.mem_of_mem_getLast? hc))

theorem trimChars_integer (hbefore : Blanks before) (hplus : Plus plus) (hafter : Blanks after)
    (hds : Digits ds) (hne : ds ≠ []) :
    trimChars (before ++ (plus ++ ds ++ after)) = plus ++ ds := by
  refine trimChars_eq hbefore hafter ?_ (isBlank_last hds hne plus)
  rcases hplus with rfl | rfl
  · intro c hc
    exact isBlank_of_isDigit (hds c (List.mem_of_mem_head? hc))
  · intro c hc
    cases hc
    rfl

/-- Trimming leaves an optional plus sign and digits of the integer, and nothing else does. -/
theorem isIntegerText_iff :
    IsIntegerText n s ↔ ∃ plus ds, Plus plus ∧ Digits ds ∧ ds ≠ [] ∧ natural ds = n ∧
      trimChars s.toList = plus ++ ds := by
  constructor
  · rintro ⟨before, plus, zeros, after, hbefore, hplus, hafter, hs⟩
    obtain ⟨ds, hzeros, hds, hne, hn⟩ := toDigits_zeros zeros n
    rw [← hzeros] at hs
    exact ⟨plus, ds, hplus, hds, hne, hn, hs ▸ trimChars_integer hbefore hplus hafter hds hne⟩
  · rintro ⟨plus, ds, hplus, hds, hne, rfl, htrim⟩
    obtain ⟨before, after, hbefore, hafter, hs⟩ := exists_trimChars s.toList
    obtain ⟨zeros, hzeros⟩ := exists_zeros hds hne
    rw [htrim] at hs
    exact ⟨before, plus, zeros, after, hbefore, hplus, hafter, hzeros ▸ hs⟩

/-- An integer text is a floating-point numeral as well. -/
theorem IsIntegerText.means (h : IsIntegerText n s) : ∃ v, Means (trimChars s.toList) v := by
  obtain ⟨plus, ds, hplus, hds, hne, -, htrim⟩ := isIntegerText_iff.1 h
  exact ⟨_, htrim ▸ means_digits hplus.sign hds hne⟩

/-- The reader of integers reads integer texts only. -/
theorem magnitude?_eq_none (h : ∀ n < magnitudeBound, ¬ IsIntegerText n s) :
    magnitude? (trimChars s.toList) = none := by
  cases hread : magnitude? (trimChars s.toList) with
  | none => rfl
  | some n =>
    obtain ⟨hn, plus, ds, hplus, hds, hne, htrim, hvalue⟩ := magnitude?_eq_some hread
    exact absurd (isIntegerText_iff.2 ⟨plus, ds, hplus, hds, hne, hvalue, htrim⟩) (h n hn)

namespace Input

theorem magnitude_of_integer (h : magnitude? (trimChars s.toList) = some n) :
    (text s).magnitude = .ok n := by
  simp only [magnitude, h]

theorem magnitude_of_float {x : Binary64} (hnone : magnitude? (trimChars s.toList) = none)
    (h : float? (trimChars s.toList) = some x) : (text s).magnitude = x.magnitude := by
  simp only [magnitude, hnone, h]

theorem magnitude_of_neither (hnone : magnitude? (trimChars s.toList) = none)
    (h : float? (trimChars s.toList) = none) :
    (text s).magnitude = .error (.notNumeral (String.ofList (trimChars s.toList))) := by
  simp only [magnitude, hnone, h]

/-- The text of an integer has its magnitude below the bound, and none from the bound on. -/
theorem magnitude_integerText (h : IsIntegerText n s) :
    (n < magnitudeBound → (text s).magnitude = .ok n) ∧
      (magnitudeBound ≤ n → ∃ fault, (text s).magnitude = .error fault) := by
  obtain ⟨plus, ds, hplus, hds, hne, rfl, htrim⟩ := isIntegerText_iff.1 h
  have hread := magnitude?_digits hplus hds hne
  rw [← htrim] at hread
  constructor
  · intro hn
    rw [Option.filter_some_pos (by simpa using hn)] at hread
    exact magnitude_of_integer hread
  · intro hn
    rw [Option.filter_some_neg (by simpa using hn)] at hread
    have hmeans := means_digits hplus.sign hds hne
    obtain ⟨x, hx⟩ := hmeans.exists_nearest
    have hfloat := float?_eq_some_iff.2 ⟨_, hmeans, hx⟩
    rw [← htrim] at hfloat
    exact ⟨_, (magnitude_of_float hread hfloat).trans
      (Binary64.Rounds.magnitude_of_le hx (by exact_mod_cast hn))⟩

theorem magnitude?_minus (cs : List Char) : magnitude? ('-' :: cs) = none := by
  cases hread : magnitude? ('-' :: cs) with
  | none => rfl
  | some n =>
    obtain ⟨-, plus, ds, rfl | rfl, hds, hne, hcs, -⟩ := magnitude?_eq_some hread
    · cases hds '-' (by rw [← List.nil_append ds, ← hcs]; exact List.mem_cons_self)
    · cases hcs

/-- What begins with a blank or a plus sign is no numeral without a sign. -/
theorem not_unsigned {negative : Bool} {c : Char} {v : Meaning}
    (hc : isBlank c = true ∨ c = '+') : ¬ Unsigned negative (c :: cs) v := by
  intro h
  rcases hc with hblank | rfl
  · obtain ⟨c', t, hcs, hhead⟩ := h.exists_head
    obtain ⟨rfl, -⟩ := List.cons.inj hcs
    have hcode := toNat_of_isBlank hblank
    rw [toLower_eq_self (by omega)] at hhead
    rcases hhead with hdigit | rfl | rfl | rfl
    · have hdigit := toNat_of_isDigit hdigit
      omega
    · cases hblank
    · cases hblank
    · cases hblank
  · exact h.ne_signed.1 cs rfl

theorem trimChars_minus (hafter : Blanks after) (hds : Digits ds) (hne : ds ≠ [])
    (hblanks : Blanks cs) (before plus : List Char) :
    trimChars (cs ++ '-' :: (before ++ (plus ++ ds ++ after)))
      = '-' :: (before ++ (plus ++ ds)) := by
  have hshape : cs ++ '-' :: (before ++ (plus ++ ds ++ after))
      = cs ++ (('-' :: (before ++ (plus ++ ds))) ++ after) := by simp
  have hlast := isBlank_last hds hne ('-' :: (before ++ plus))
  rw [List.cons_append, List.append_assoc] at hlast
  rw [hshape]
  refine trimChars_eq hblanks hafter (fun c hc => ?_) hlast
  cases hc
  rfl

/-- A numeral behind a minus sign is one of a negative number, if the integer behind the sign is
positive. -/
theorem magnitude_of_minus {x : Binary64} (hbefore : Blanks before) (hplus : Plus plus)
    (hds : Digits ds) (hne : ds ≠ []) (hpos : 0 < natural ds)
    (h : float? ('-' :: (before ++ (plus ++ ds))) = some x) :
    x.magnitude = .error (.notNonNegative x) := by
  obtain ⟨v, hmeans, hx⟩ := float?_eq_some_iff.1 h
  -- Neither a blank nor a second sign stands behind the first one.
  cases before with
  | cons c before =>
    exact absurd hmeans.minus (not_unsigned (.inl (hbefore c List.mem_cons_self)))
  | nil =>
    rcases hplus with rfl | rfl
    · have hinteger := means_digits .minus hds hne
      obtain ⟨y, hy⟩ := hinteger.exists_nearest
      have hsame := float?_eq_some_iff.2 ⟨_, hinteger, hy⟩
      obtain rfl : y = x := Option.some.inj (hsame.symm.trans h)
      exact Binary64.Rounds.magnitude_of_negative hy (by exact_mod_cast hpos)
    · exact absurd hmeans.minus (not_unsigned (.inr rfl))

/-- The text of a positive integer behind a minus sign is rejected. -/
theorem magnitude_minus {blanks : List Char} {negated : String} (h : IsIntegerText n s)
    (hn : 0 < n) (hblanks : Blanks blanks) (hnegated : negated.toList = blanks ++ '-' :: s.toList) :
    ∃ fault, (text negated).magnitude = .error fault := by
  obtain ⟨before, plus, zeros, after, hbefore, hplus, hafter, hs⟩ := h
  obtain ⟨ds, hzeros, hds, hne, rfl⟩ := toDigits_zeros zeros n
  have htrim := trimChars_minus hafter hds hne hblanks before plus
  rw [hzeros, ← hs, ← hnegated, ← hzeros] at htrim
  have hread := magnitude?_minus (before ++ (plus ++ ds))
  rw [← htrim] at hread
  cases hfloat : float? (trimChars negated.toList) with
  | none => exact ⟨_, magnitude_of_neither hread hfloat⟩
  | some x =>
    rw [htrim] at hfloat
    have hnegative := magnitude_of_minus hbefore hplus hds hne hn hfloat
    rw [← htrim] at hfloat
    exact ⟨_, (magnitude_of_float hread hfloat).trans hnegative⟩

/-- Integer texts are exact or rejected.  Below the bound the magnitude of the text of an integer is
the integer, from the bound on there is none, and none behind a minus sign.  Any other text that is
a floating-point numeral has the magnitude of the one floating-point number nearest to it, and all
remaining texts have none. -/
theorem magnitude_exact :
    (∀ n s, IsIntegerText n s →
      (n < magnitudeBound → (text s).magnitude = .ok n ∧ (integer n).magnitude = .ok n) ∧
      (magnitudeBound ≤ n → ∃ fault, (text s).magnitude = .error fault) ∧
      (0 < n → (integer (-n)).magnitude = .error (.negative (-n)) ∧
        ∀ blanks negated, Blanks blanks → negated.toList = blanks ++ '-' :: s.toList →
          ∃ fault, (text negated).magnitude = .error fault)) ∧
    (∀ s v, Means (trimChars s.toList) v → (∀ n < magnitudeBound, ¬ IsIntegerText n s) →
      ∃ x, (∀ y, v.Nearest y ↔ y = x) ∧ (text s).magnitude = x.magnitude) ∧
    ∀ s, (∀ v, ¬ Means (trimChars s.toList) v) → ∃ fault, (text s).magnitude = .error fault := by
  refine ⟨fun n s hs => ⟨fun hn => ⟨(magnitude_integerText hs).1 hn, ?_⟩,
    (magnitude_integerText hs).2, fun hpos => ⟨?_, fun blanks negated hblanks hnegated =>
      magnitude_minus hs hpos hblanks hnegated⟩⟩, fun s v hv hother => ?_, fun s hnone => ?_⟩
  · simp [magnitude]
  · simp [magnitude, hpos]
  · have hread := magnitude?_eq_none hother
    obtain ⟨x, hx⟩ := hv.exists_nearest
    refine ⟨x, fun y => ⟨fun hy => hy.unique hx, ?_⟩,
      magnitude_of_float hread (float?_eq_some_iff.2 ⟨v, hv, hx⟩)⟩
    rintro rfl
    exact hx
  · have hread := magnitude?_eq_none fun n _ hs => by
      obtain ⟨v, hv⟩ := hs.means
      exact hnone v hv
    have hfloat : float? (trimChars s.toList) = none := by
      cases hfloat : float? (trimChars s.toList) with
      | none => rfl
      | some x =>
        obtain ⟨v, hv, -⟩ := float?_eq_some_iff.1 hfloat
        exact absurd hv (hnone v)
    exact ⟨_, magnitude_of_neither hread hfloat⟩

/-- The texts of the last magnitude and of the bound, between blanks. -/
theorem magnitude_around_bound :
    (text " +0340282366920938463463374607431768211455\n").magnitude = .ok (2 ^ 128 - 1) ∧
      ∃ fault, (text " +0340282366920938463463374607431768211456\n").magnitude = .error fault := by
  have hspace : Blanks [' '] := fun c hc => List.mem_singleton.1 hc ▸ rfl
  have hnewline : Blanks ['\n'] := fun c hc => List.mem_singleton.1 hc ▸ rfl
  have hbelow : IsIntegerText (2 ^ 128 - 1) " +0340282366920938463463374607431768211455\n" :=
    ⟨[' '], ['+'], 1, ['\n'], hspace, .inr rfl, hnewline, by decide +kernel⟩
  have hbound : IsIntegerText (2 ^ 128) " +0340282366920938463463374607431768211456\n" :=
    ⟨[' '], ['+'], 1, ['\n'], hspace, .inr rfl, hnewline, by decide +kernel⟩
  exact ⟨((magnitude_exact.1 _ _ hbelow).1 (by decide)).1,
    (magnitude_exact.1 _ _ hbound).2.1 (by decide)⟩

end Input
end NumberWords
