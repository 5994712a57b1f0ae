import Mathlib.Data.List.TakeWhile
import NumberWords.Number.Numeral
import NumberWords.Proofs.Number.Rounding

/-!
The grammar of floating-point numerals.

A numeral means infinity, no number, or an exact rational value with a sign.  The reader takes
exactly the texts of the grammar, and what it gives for a text is the floating-point number nearest
to the value (`float?_eq_some_iff`).
-/

namespace NumberWords
namespace Numeral

open Binary64 (Rounds two_zpow_pos)

/-! ## Decimal values -/

theorem decimal_quotient (digits : Nat) (e : Int) :
    ((digits * 10 ^ e.toNat : Nat) : ℚ) / (10 ^ (-e).toNat : Nat) = digits * 10 ^ e := by
  push_cast
  rw [Binary64.zpow_eq_div, mul_div_assoc]

theorem two_zpow_three_mul (e : Int) : (2 : ℚ) ^ (3 * e) = 8 ^ e := by
  rw [zpow_mul]
  norm_num

/-- Ten is more than eight, so its powers lie on the outer side of those of eight. -/
theorem eight_zpow_le {e : Int} (h : 0 ≤ e) : (8 : ℚ) ^ e ≤ 10 ^ e :=
  zpow_le_zpow_left₀ h (by norm_num) (by norm_num)

theorem le_eight_zpow {e : Int} (h : e ≤ 0) : (10 : ℚ) ^ e ≤ 8 ^ e := by
  have hle := inv_anti₀ (by positivity) (eight_zpow_le (e := -e) (by omega))
  rwa [zpow_neg, zpow_neg, inv_inv, inv_inv] at hle

/-- The binary logarithm of a decimal, with three for that of ten. -/
def size (digits : Nat) (e : Int) : Int := digits.log2 + 3 * e

theorem two_zpow_size (digits : Nat) (e : Int) :
    (2 : ℚ) ^ size digits e = 2 ^ digits.log2 * 8 ^ e := by
  rw [size, zpow_add₀ two_ne_zero, two_zpow_three_mul, zpow_natCast]

theorem decimal_lt {digits : Nat} {e : Int} (he : e ≤ 0) :
    (digits : ℚ) * 10 ^ e < 2 ^ (size digits e + 1) := by
  have hten := le_eight_zpow he
  have hhigh : (digits : ℚ) < 2 ^ (digits.log2 + 1) := by exact_mod_cast Nat.lt_log2_self
  calc (digits : ℚ) * 10 ^ e ≤ digits * 8 ^ e := by gcongr
    _ < 2 ^ (digits.log2 + 1) * 8 ^ e := by gcongr
    _ = 2 ^ (size digits e + 1) := by
        rw [zpow_add_one₀ two_ne_zero, two_zpow_size, pow_succ]
        ring

theorem le_decimal {digits : Nat} {e : Int} (hpos : 0 < digits) (he : 0 ≤ e) :
    (2 : ℚ) ^ size digits e ≤ digits * 10 ^ e := by
  have hten := eight_zpow_le he
  have hlow : (2 : ℚ) ^ digits.log2 ≤ digits := by exact_mod_cast Nat.log2_self_le hpos.ne'
  rw [two_zpow_size]
  gcongr

/-- The value of a decimal is rounded to the nearest floating-point number, also where the size of
the decimal alone tells which. -/
theorem ofDecimal_rounds (negative : Bool) (digits : Nat) (e : Int) :
    Rounds negative (digits * 10 ^ e) (ofDecimal negative digits e) := by
  have hden : 0 < 10 ^ (-e).toNat := Nat.pow_pos (by decide)
  have hnearest := Binary64.nearest_rounds negative (digits * 10 ^ e.toNat) hden
  rw [decimal_quotient] at hnearest
  rcases Nat.eq_zero_or_pos digits with rfl | hpos
  · rw [Nat.cast_zero, zero_mul]
    exact Binary64.rounds_zero negative
  show Rounds negative _ (if digits = 0 || size digits e < -1080 then _
    else if 0 ≤ e && 1024 < size digits e then _ else _)
  have hsize : size digits e = digits.log2 + 3 * e := rfl
  by_cases hsmall : size digits e < -1080
  · rw [if_pos (by simp [hsmall])]
    apply Binary64.rounds_zero_of_lt negative (by positivity)
    calc (digits : ℚ) * 10 ^ e * 2 < 2 ^ (size digits e + 1) * 2 := by
          have hlt := @decimal_lt digits e (by omega)
          gcongr
      _ = 2 ^ (size digits e + 1 + 1) := (zpow_add_one₀ two_ne_zero _).symm
      _ ≤ 2 ^ Binary64.leastExponent :=
          zpow_le_zpow_right₀ one_le_two (by rw [Binary64.leastExponent]; omega)
  · rw [if_neg (by simp [hsmall, hpos.ne'])]
    by_cases hgreat : 0 ≤ e ∧ 1024 < size digits e
    · have hvalue : (2 : ℚ) ^ 1024 ≤ digits * 10 ^ e := by
        calc (2 : ℚ) ^ 1024 = 2 ^ (1024 : Int) := rfl
          _ ≤ 2 ^ size digits e := zpow_le_zpow_right₀ one_le_two (by omega)
          _ ≤ digits * 10 ^ e := le_decimal hpos hgreat.1
      rw [if_pos (by simpa using hgreat), ← hnearest.eq_infinite hvalue]
      exact hnearest
    · rw [if_neg (by simpa using hgreat)]
      exact hnearest

/-! ## The grammar -/

inductive Meaning where
  | nan
  | infinite (negative : Bool)
  | value (negative : Bool) (v : ℚ)

/-- The floating-point number for a meaning. -/
def Meaning.Nearest : Meaning → Binary64 → Prop
  | .nan, x => x = .nan
  | .infinite negative, x => x = .infinite negative
  | .value negative v, x => Rounds negative v x

theorem Meaning.Nearest.unique {v : Meaning} {x y : Binary64} (hx : v.Nearest x)
    (hy : v.Nearest y) : x = y := by
  cases v with
  | nan => exact hx.trans hy.symm
  | infinite negative => exact hx.trans hy.symm
  | value negative v => exact Rounds.unique hx hy

def Digits (cs : List Char) : Prop := ∀ c ∈ cs, c.isDigit = true

def natural (cs : List Char) : Nat := Nat.ofDigitChars 10 cs 0

inductive Sign : List Char → Bool → Prop where
  | none : Sign [] false
  | plus : Sign ['+'] false
  | minus : Sign ['-'] true

/-- Digits with an optional point, as a natural number and how many digits stand behind the
point. -/
inductive Significand : List Char → Nat → Nat → Prop where
  | whole {digits : List Char} : Digits digits → digits ≠ [] → Significand digits (natural digits) 0
  | point {whole fraction : List Char} : Digits whole → Digits fraction → whole ++ fraction ≠ [] →
      Significand (whole ++ '.' :: fraction) (natural (whole ++ fraction)) fraction.length

inductive Exponent : List Char → Int → Prop where
  | none : Exponent [] 0
  | marked {mark : Char} {sign digits : List Char} {negative : Bool} :
      mark = 'e' ∨ mark = 'E' → Sign sign negative → Digits digits → digits ≠ [] →
      Exponent (mark :: (sign ++ digits))
        (if negative then -(natural digits : Int) else natural digits)

/-- A numeral without its sign.  The three names stand in either case. -/
inductive Unsigned (negative : Bool) : List Char → Meaning → Prop where
  | nan {name : List Char} : name.map Char.toLower = ['n', 'a', 'n'] → Unsigned negative name .nan
  | infinite {name : List Char} :
      name.map Char.toLower = ['i', 'n', 'f'] ∨
        name.map Char.toLower = ['i', 'n', 'f', 'i', 'n', 'i', 't', 'y'] →
      Unsigned negative name (.infinite negative)
  | value {significand exponent : List Char} {n places : Nat} {e : Int} :
      Significand significand n places → Exponent exponent e →
      Unsigned negative (significand ++ exponent) (.value negative (n * 10 ^ (e - places)))

inductive Means : List Char → Meaning → Prop where
  | signed {sign cs : List Char} {negative : Bool} {v : Meaning} :
      Sign sign negative → Unsigned negative cs v → Means (sign ++ cs) v

/-! ## Reading -/

variable {cs ds rest : List Char} {negative : Bool} {v : Meaning} {x : Binary64}

theorem natural?_eq_some_iff {n : Nat} :
    natural? cs = some n ↔ Digits cs ∧ cs ≠ [] ∧ natural cs = n := by
  unfold natural?
  by_cases hempty : cs = []
  · simp [hempty]
  · by_cases hdigits : cs.all Char.isDigit = true
    · have hall : Digits cs := List.all_eq_true.1 hdigits
      simp [hempty, hdigits, hall, natural]
    · have hnot : ¬ Digits cs := fun h => hdigits (List.all_eq_true.2 h)
      simp [hdigits, hnot]

theorem natural?_of_digits (h : Digits cs) (hne : cs ≠ []) : natural? cs = some (natural cs) :=
  natural?_eq_some_iff.2 ⟨h, hne, rfl⟩

def Stops (cs : List Char) : Prop := ∀ c ∈ cs.head?, c.isDigit = false

theorem takeWhile_digits (h : Digits ds) (hrest : Stops rest) :
    (ds ++ rest).takeWhile Char.isDigit = ds := by
  rw [List.takeWhile_append_of_pos h]
  cases rest with
  | nil => simp
  | cons c rest => simp [hrest c rfl]

theorem dropWhile_digits (h : Digits ds) (hrest : Stops rest) :
    (ds ++ rest).dropWhile Char.isDigit = rest := by
  rw [List.dropWhile_append_of_pos h]
  cases rest with
  | nil => rfl
  | cons c rest => exact List.dropWhile_cons_of_neg (by simp [hrest c rfl])

theorem exists_digits (cs : List Char) : ∃ ds rest, cs = ds ++ rest ∧ Digits ds ∧ Stops rest := by
  refine ⟨cs.takeWhile Char.isDigit, cs.dropWhile Char.isDigit,
    List.takeWhile_append_dropWhile.symm, fun c hc => List.mem_takeWhile_imp hc, fun c hc => ?_⟩
  have hhead := List.head?_dropWhile_not Char.isDigit cs
  rw [Option.mem_def.1 hc] at hhead
  simpa using hhead

theorem exponent?_eq_some_iff {e : Int} :
    exponent? cs = some e ↔ ∃ sign digits negative, Sign sign negative ∧ Digits digits ∧
      digits ≠ [] ∧ cs = sign ++ digits ∧
      e = if negative then -(natural digits : Int) else natural digits := by
  constructor
  · intro h
    unfold exponent? at h
    split at h
    · next digits =>
      obtain ⟨n, hn, rfl⟩ := Option.map_eq_some_iff.1 h
      obtain ⟨hdigits, hne, rfl⟩ := natural?_eq_some_iff.1 hn
      exact ⟨['+'], digits, false, .plus, hdigits, hne, rfl, rfl⟩
    · next digits =>
      obtain ⟨n, hn, rfl⟩ := Option.map_eq_some_iff.1 h
      obtain ⟨hdigits, hne, rfl⟩ := natural?_eq_some_iff.1 hn
      exact ⟨['-'], digits, true, .minus, hdigits, hne, rfl, rfl⟩
    · obtain ⟨n, hn, rfl⟩ := Option.map_eq_some_iff.1 h
      obtain ⟨hdigits, hne, rfl⟩ := natural?_eq_some_iff.1 hn
      exact ⟨[], cs, false, .none, hdigits, hne, rfl, rfl⟩
  · rintro ⟨sign, digits, negative, hsign, hdigits, hne, rfl, rfl⟩
    have hnatural := natural?_of_digits hdigits hne
    cases hsign with
    | plus => simp [exponent?, hnatural]
    | minus => simp [exponent?, hnatural]
    | none =>
      cases digits with
      | nil => exact absurd rfl hne
      | cons c digits =>
        have hc := hdigits c List.mem_cons_self
        have hplus : c ≠ '+' := by rintro rfl; cases hc
        have hminus : c ≠ '-' := by rintro rfl; cases hc
        simp [exponent?, hplus, hminus, hnatural]

/-- What `unsigned?` does behind the significand. -/
def scaled? (negative : Bool) (n places : Nat) : List Char → Option Binary64
  | [] => some (ofDecimal negative n (-(places : Int)))
  | c :: rest =>
    if c = 'e' || c = 'E' then (exponent? rest).map fun e => ofDecimal negative n (e - places)
    else none

theorem scaled?_eq_some_iff {n places : Nat} :
    scaled? negative n places rest = some x ↔
      ∃ e, Exponent rest e ∧ ofDecimal negative n (e - places) = x := by
  constructor
  · intro h
    cases rest with
    | nil => exact ⟨0, .none, by simpa [scaled?] using h⟩
    | cons mark rest =>
      rw [scaled?] at h
      by_cases hmark : mark = 'e' || mark = 'E'
      · rw [if_pos hmark] at h
        obtain ⟨e, he, rfl⟩ := Option.map_eq_some_iff.1 h
        obtain ⟨sign, digits, negative', hsign, hdigits, hne, rfl, rfl⟩ :=
          exponent?_eq_some_iff.1 he
        exact ⟨_, .marked (by simpa using hmark) hsign hdigits hne, rfl⟩
      · rw [if_neg hmark] at h
        cases h
  · rintro ⟨e, he, rfl⟩
    cases he with
    | none => simp [scaled?]
    | marked hmark hsign hdigits hne =>
      have hexponent := exponent?_eq_some_iff.2 ⟨_, _, _, hsign, hdigits, hne, rfl, rfl⟩
      rw [scaled?, if_pos (by simpa using hmark), hexponent]
      rfl

theorem Exponent.stops {e : Int} (h : Exponent rest e) : Stops rest := by
  cases h with
  | none => exact fun c hc => nomatch hc
  | marked hmark =>
    intro c hc
    cases hc
    rcases hmark with rfl | rfl <;> rfl

def IsName (cs : List Char) : Prop :=
  (cs.map Char.toLower = ['i', 'n', 'f'] ∨
      cs.map Char.toLower = ['i', 'n', 'f', 'i', 'n', 'i', 't', 'y']) ∨
    cs.map Char.toLower = ['n', 'a', 'n']

theorem unsigned?_digits (hname : ¬ IsName (ds ++ rest)) (hds : Digits ds) (hrest : Stops rest)
    (hpoint : ∀ t, rest ≠ '.' :: t) :
    unsigned? negative (ds ++ rest)
      = if ds = [] then none else scaled? negative (natural ds) 0 rest := by
  obtain ⟨hinfinite, hnan⟩ := not_or.1 hname
  unfold unsigned?
  simp only [takeWhile_digits hds hrest, dropWhile_digits hds hrest]
  rw [if_neg (by simpa only [Bool.or_eq_true, decide_eq_true_eq] using hinfinite), if_neg hnan]
  by_cases hempty : ds = []
  · simp [hempty]
  · cases rest with
    | nil => simp [hempty, scaled?, natural]
    | cons c rest => simp [hempty, scaled?, natural]

theorem unsigned?_point {whole fraction : List Char}
    (hname : ¬ IsName (whole ++ '.' :: (fraction ++ rest))) (hwhole : Digits whole)
    (hfraction : Digits fraction) (hrest : Stops rest) :
    unsigned? negative (whole ++ '.' :: (fraction ++ rest))
      = if whole ++ fraction = [] then none
        else scaled? negative (natural (whole ++ fraction)) fraction.length rest := by
  have hstops : Stops ('.' :: (fraction ++ rest)) := by
    intro c hc
    cases hc
    rfl
  obtain ⟨hinfinite, hnan⟩ := not_or.1 hname
  unfold unsigned?
  simp only [takeWhile_digits hwhole hstops, dropWhile_digits hwhole hstops,
    takeWhile_digits hfraction hrest, dropWhile_digits hfraction hrest]
  rw [if_neg (by simpa only [Bool.or_eq_true, decide_eq_true_eq] using hinfinite), if_neg hnan]
  by_cases hempty : whole ++ fraction = []
  · simp [List.append_eq_nil_iff.1 hempty]
  · have hneither : ¬ (whole.isEmpty && fraction.isEmpty) = true := by simpa using hempty
    rw [if_neg hneither, if_neg hempty]
    cases rest <;> rfl

theorem toNat_of_isDigit {c : Char} (h : c.isDigit = true) : 48 ≤ c.toNat ∧ c.toNat ≤ 57 := by
  simpa [Char.isDigit, UInt32.le_iff_toNat_le] using h

/-- Only the capital letters of ASCII have another form. -/
theorem toLower_eq_self {c : Char} (h : c.toNat < 65 ∨ 90 < c.toNat) : c.toLower = c := by
  unfold Char.toLower
  rw [dif_neg]
  have hnat : c.toNat = c.val.toNat := rfl
  have hfirst : 'A'.val.toNat = 65 := rfl
  have hlast : 'Z'.val.toNat = 90 := rfl
  simp only [ge_iff_le, UInt32.le_iff_toNat_le]
  omega

/-- A significand begins with a digit or the point. -/
theorem Significand.exists_head {n places : Nat} (h : Significand ds n places) :
    ∃ c t, ds = c :: t ∧ (c.isDigit = true ∨ c = '.') := by
  cases h with
  | whole hdigits hne =>
    cases ds with
    | nil => exact absurd rfl hne
    | cons c t => exact ⟨c, t, rfl, .inl (hdigits c List.mem_cons_self)⟩
  | @point whole fraction hwhole =>
    cases whole with
    | nil => exact ⟨'.', fraction, rfl, .inr rfl⟩
    | cons c t => exact ⟨c, _, rfl, .inl (hwhole c List.mem_cons_self)⟩

theorem not_isName {c : Char} (h : c.isDigit = true ∨ c = '.') (cs : List Char) :
    ¬ IsName (c :: cs) := by
  have hlower : c.toLower = c := by
    rcases h with hdigit | rfl
    · have hcode := toNat_of_isDigit hdigit
      exact toLower_eq_self (by omega)
    · rfl
  have hletter : c ≠ 'i' ∧ c ≠ 'n' := by
    constructor
    · rintro rfl
      rcases h with h | h <;> cases h
    · rintro rfl
      rcases h with h | h <;> cases h
  simp [IsName, hlower, hletter]

/-- What is read behind a significand is an exponent, and the number is nearest to the value. -/
theorem scaled?_eq_some_iff_nearest {n places : Nat} :
    scaled? negative n places rest = some x ↔
      ∃ e, Exponent rest e ∧ Rounds negative (n * 10 ^ (e - places)) x := by
  rw [scaled?_eq_some_iff]
  refine exists_congr fun e => and_congr_right fun _ => ?_
  have hrounds := ofDecimal_rounds negative n (e - places)
  constructor
  · rintro rfl
    exact hrounds
  · exact hrounds.unique

/-- A text that is none of the names is read as a number exactly if it is one. -/
theorem unsigned?_eq_some_iff_value (hname : ¬ IsName cs) :
    unsigned? negative cs = some x ↔
      ∃ ds n places rest e, cs = ds ++ rest ∧ Significand ds n places ∧ Exponent rest e ∧
        Rounds negative (n * 10 ^ (e - places)) x := by
  constructor
  · intro h
    obtain ⟨ds, rest, rfl, hds, hrest⟩ := exists_digits cs
    by_cases hpoint : ∃ t, rest = '.' :: t
    · obtain ⟨t, rfl⟩ := hpoint
      obtain ⟨fraction, rest, rfl, hfraction, hrest⟩ := exists_digits t
      rw [unsigned?_point hname hds hfraction hrest] at h
      obtain ⟨hne, h⟩ := Option.ite_none_left_eq_some.1 h
      obtain ⟨e, he, hx⟩ := scaled?_eq_some_iff_nearest.1 h
      exact ⟨ds ++ '.' :: fraction, _, _, rest, e, by simp, .point hds hfraction hne, he, hx⟩
    · rw [unsigned?_digits hname hds hrest fun t ht => hpoint ⟨t, ht⟩] at h
      obtain ⟨hne, h⟩ := Option.ite_none_left_eq_some.1 h
      obtain ⟨e, he, hx⟩ := scaled?_eq_some_iff_nearest.1 h
      exact ⟨ds, _, _, rest, e, rfl, .whole hds hne, he, hx⟩
  · rintro ⟨ds, n, places, rest, e, rfl, hds, he, hx⟩
    have hscaled := scaled?_eq_some_iff_nearest.2 ⟨e, he, hx⟩
    cases hds with
    | whole hdigits hne =>
      have hpoint : ∀ t, rest ≠ '.' :: t := by
        rintro t rfl
        cases he with
        | marked hmark => rcases hmark with h | h <;> cases h
      rw [unsigned?_digits hname hdigits he.stops hpoint, if_neg hne, hscaled]
    | point hwhole hfraction hne =>
      rw [List.append_assoc, List.cons_append] at hname ⊢
      rw [unsigned?_point hname hwhole hfraction he.stops, if_neg hne, hscaled]

theorem unsigned?_infinite
    (h : cs.map Char.toLower = ['i', 'n', 'f'] ∨
      cs.map Char.toLower = ['i', 'n', 'f', 'i', 'n', 'i', 't', 'y']) :
    unsigned? negative cs = some (.infinite negative) := by
  unfold unsigned?
  exact if_pos (by simpa only [Bool.or_eq_true, decide_eq_true_eq] using h)

theorem unsigned?_nan (h : cs.map Char.toLower = ['n', 'a', 'n']) :
    unsigned? negative cs = some .nan := by
  unfold unsigned?
  simp only [h]
  rfl

/-- A text is read as a numeral without a sign exactly if it is one, and then the number is nearest
to its meaning. -/
theorem unsigned?_eq_some_iff :
    unsigned? negative cs = some x ↔ ∃ v, Unsigned negative cs v ∧ v.Nearest x := by
  constructor
  · intro h
    by_cases hname : IsName cs
    · rcases hname with hinfinite | hnan
      · rw [unsigned?_infinite hinfinite] at h
        cases h
        exact ⟨_, .infinite hinfinite, rfl⟩
      · rw [unsigned?_nan hnan] at h
        cases h
        exact ⟨_, .nan hnan, rfl⟩
    · obtain ⟨ds, n, places, rest, e, rfl, hds, he, hx⟩ := (unsigned?_eq_some_iff_value hname).1 h
      exact ⟨_, .value hds he, hx⟩
  · rintro ⟨v, hcs, hx⟩
    cases hcs with
    | nan h =>
      rw [show x = .nan from hx]
      exact unsigned?_nan h
    | infinite h =>
      rw [show x = .infinite negative from hx]
      exact unsigned?_infinite h
    | @value significand exponent n places e hds he =>
      obtain ⟨c, t, hcons, hc⟩ := hds.exists_head
      have hname : ¬ IsName (significand ++ exponent) := by
        rw [hcons]
        exact not_isName hc (t ++ exponent)
      exact (unsigned?_eq_some_iff_value hname).2 ⟨_, _, _, _, _, rfl, hds, he, hx⟩

theorem Means.exists_nearest (h : Means cs v) : ∃ x, v.Nearest x := by
  cases h with
  | signed hsign h =>
    cases h with
    | nan => exact ⟨.nan, rfl⟩
    | infinite => exact ⟨.infinite _, rfl⟩
    | value => exact ⟨_, ofDecimal_rounds _ _ _⟩

/-- A numeral without a sign begins with a digit, the point or the letter of a name. -/
theorem Unsigned.exists_head (h : Unsigned negative cs v) :
    ∃ c t, cs = c :: t ∧
      (c.isDigit = true ∨ c = '.' ∨ c.toLower = 'n' ∨ c.toLower = 'i') := by
  cases h with
  | nan h =>
    cases cs with
    | nil => cases h
    | cons c t => exact ⟨c, t, rfl, .inr (.inr (.inl (List.cons.inj h).1))⟩
  | infinite h =>
    cases cs with
    | nil => rcases h with h | h <;> cases h
    | cons c t =>
      have hletter : c.toLower = 'i' := by rcases h with h | h <;> exact (List.cons.inj h).1
      exact ⟨c, t, rfl, .inr (.inr (.inr hletter))⟩
  | value hds =>
    obtain ⟨c, t, rfl, hdigit | hpoint⟩ := hds.exists_head
    · exact ⟨c, _, rfl, .inl hdigit⟩
    · exact ⟨c, _, rfl, .inr (.inl hpoint)⟩

theorem Unsigned.ne_signed (h : Unsigned negative cs v) :
    (∀ t, cs ≠ '+' :: t) ∧ ∀ t, cs ≠ '-' :: t := by
  obtain ⟨c, t, rfl, hc⟩ := h.exists_head
  constructor
  · intro t ht
    obtain ⟨rfl, -⟩ := List.cons.inj ht
    rcases hc with hc | hc | hc | hc <;> cases hc
  · intro t ht
    obtain ⟨rfl, -⟩ := List.cons.inj ht
    rcases hc with hc | hc | hc | hc <;> cases hc

theorem Means.minus (h : Means ('-' :: cs) v) : Unsigned true cs v := by
  generalize htext : '-' :: cs = text at h
  cases h with
  | @signed sign cs' negative v hsign h =>
    cases hsign with
    | none => exact absurd htext.symm (h.ne_signed.2 cs)
    | plus => cases htext
    | minus =>
      obtain ⟨-, rfl⟩ := List.cons.inj htext
      exact h

/-- A text is read as a floating-point numeral exactly if it is one, and then the number is nearest
to its meaning. -/
theorem float?_eq_some_iff : float? cs = some x ↔ ∃ v, Means cs v ∧ v.Nearest x := by
  constructor
  · intro h
    unfold float? at h
    split at h
    · obtain ⟨v, hv, hx⟩ := unsigned?_eq_some_iff.1 h
      exact ⟨v, .signed .plus hv, hx⟩
    · obtain ⟨v, hv, hx⟩ := unsigned?_eq_some_iff.1 h
      exact ⟨v, .signed .minus hv, hx⟩
    · obtain ⟨v, hv, hx⟩ := unsigned?_eq_some_iff.1 h
      exact ⟨v, .signed .none hv, hx⟩
  · rintro ⟨v, hcs, hx⟩
    cases hcs with
    | @signed sign cs negative v hsign hv =>
      have hread := unsigned?_eq_some_iff.2 ⟨v, hv, hx⟩
      cases hsign with
      | plus => exact hread
      | minus => exact hread
      | none =>
        obtain ⟨hplus, hminus⟩ := hv.ne_signed
        rw [List.nil_append]
        unfold float?
        split
        · next t => exact absurd rfl (hplus t)
        · next t => exact absurd rfl (hminus t)
        · exact hread

end Numeral
end NumberWords
