import NumberWords.Proofs.Speller.Faults
import NumberWords.Proofs.Speller.Parts

/-!
Agreement of unit and count in Russian and Ukrainian.

The form beside a count follows the last two digits of the count (`agreement`).  The units take the
exceptions from 11 to 14 out of a list that ends below one thousand, so a count from one thousand on
that ends in one of them breaks the rule.  Only the decillion is counted so high, and only in the
number itself: no count inside a number reaches it (`slavic_units_agree_iff`).
-/

namespace NumberWords

open Fallible

namespace Descriptor
namespace Slavic

/-- The form of a unit by the last two digits of its count. -/
def agreement (count : Nat) : Form :=
  if count % 10 = 1 ∧ count % 100 ≠ 11 then .singular
  else if 2 ≤ count % 10 ∧ count % 10 ≤ 4 ∧ ¬ (12 ≤ count % 100 ∧ count % 100 ≤ 14) then .few
  else .plural

def lastDigitForm (count : Nat) : Form :=
  if count % 10 = 1 then .singular
  else if 2 ≤ count % 10 ∧ count % 10 ≤ 4 then .few
  else .plural

def IsTeen (count : Nat) : Prop := 11 ≤ count % 100 ∧ count % 100 ≤ 14

theorem agreement_of_isTeen {count : Nat} (h : IsTeen count) : agreement count = .plural := by
  unfold IsTeen at h
  unfold agreement
  rw [if_neg (by omega), if_neg (by omega)]

theorem agreement_of_not_isTeen {count : Nat} (h : ¬ IsTeen count) :
    agreement count = lastDigitForm count := by
  unfold IsTeen at h
  unfold agreement lastDigitForm
  have hone : (count % 10 = 1 ∧ count % 100 ≠ 11) ↔ count % 10 = 1 := by omega
  have hfew : (2 ≤ count % 10 ∧ count % 10 ≤ 4 ∧ ¬ (12 ≤ count % 100 ∧ count % 100 ≤ 14)) ↔
      (2 ≤ count % 10 ∧ count % 10 ≤ 4) := by omega
  simp only [hone, hfew]

theorem lastDigitForm_ne_plural {count : Nat} (h : IsTeen count) :
    lastDigitForm count ≠ .plural := by
  unfold IsTeen at h
  unfold lastDigitForm
  by_cases hone : count % 10 = 1
  · simp [hone]
  · rw [if_neg hone, if_pos (by omega)]
    decide

theorem listed_teens_iff (count : Nat) :
    listed teens count = true ↔ count < 1000 ∧ IsTeen count := by
  simp [listed, teens, IsTeen]
  omega

/-- A unit that is declined by its counts, with a word of its own for each of three forms. -/
def IsDeclined (unit : ScaleUnit) : Prop :=
  ∃ singular few plural base, few ≠ "" ∧ plural ≠ "" ∧ [singular, few, plural].Nodup ∧
    unit = .inflected { declined singular few plural with countBase := base }

variable {few plural : String} (singular : String) (base : Option String)

theorem form?_declined (hfew : few ≠ "") (hplural : plural ≠ "") (f : Form) :
    ({ declined singular few plural with countBase := base } : InflectedUnit).form? f =
      match f with
      | .singular => some singular
      | .dual => none
      | .few => some few
      | .plural => some plural := by
  cases f <;> simp [InflectedUnit.form?, declined, hfew, hplural]

/-- The list alone decides against the last digit; counts up to four are not in it. -/
theorem selectForm_declined (hfew : few ≠ "") (hplural : plural ≠ "") (count : Nat) (tail : Bool) :
    ({ declined singular few plural with countBase := base } : InflectedUnit).selectForm
        count tail = if listed teens count then .plural else lastDigitForm count := by
  have hteen := listed_teens_iff count
  unfold IsTeen at hteen
  unfold InflectedUnit.selectForm lastDigitForm
  simp only [form?_declined singular base hfew hplural]
  cases hl : listed teens count with
  | false =>
    have hone : (count = 1 ∨ count % 10 = 1) ↔ count % 10 = 1 := by omega
    have hfour : (2 ≤ count ∧ count ≤ 4 ∨ 2 ≤ count % 10 ∧ count % 10 ≤ 4) ↔
        2 ≤ count % 10 ∧ count % 10 ≤ 4 := by omega
    simp [declined, hl, hone, hfour]
  | true =>
    have hcount := hteen.1 hl
    have hone : count ≠ 1 := by omega
    have hfour : ¬ (2 ≤ count ∧ count ≤ 4) := by omega
    simp [declined, hl, hone, hfour]

theorem selectForm_eq_agreement_iff (hfew : few ≠ "") (hplural : plural ≠ "") (count : Nat)
    (tail : Bool) :
    ({ declined singular few plural with countBase := base } : InflectedUnit).selectForm
        count tail = agreement count ↔ ¬ (1000 ≤ count ∧ IsTeen count) := by
  rw [selectForm_declined singular base hfew hplural]
  by_cases hteen : IsTeen count
  · rw [agreement_of_isTeen hteen]
    by_cases hlt : count < 1000
    · have hlisted := (listed_teens_iff count).2 ⟨hlt, hteen⟩
      simp [hlisted, hlt]
    · have hlisted : ¬ listed teens count = true := fun h => hlt ((listed_teens_iff count).1 h).1
      have hne := lastDigitForm_ne_plural hteen
      have hle : 1000 ≤ count := by omega
      simp [hlisted, hne, hle, hteen]
  · have hlisted : ¬ listed teens count = true := fun h => hteen ((listed_teens_iff count).1 h).2
    rw [agreement_of_not_isTeen hteen]
    simp [hlisted, hteen]

theorem agreement_ne_dual (count : Nat) : agreement count ≠ .dual := by
  unfold agreement
  split_ifs <;> decide

theorem selectForm_declined_ne_dual (hfew : few ≠ "") (hplural : plural ≠ "") (count : Nat)
    (tail : Bool) :
    ({ declined singular few plural with countBase := base } : InflectedUnit).selectForm
        count tail ≠ .dual := by
  rw [selectForm_declined singular base hfew hplural, lastDigitForm]
  split_ifs <;> decide

/-- A declined unit keeps to the rule but at the high counts that end in 11, 12, 13 or 14. -/
theorem form?_agreement_iff {u : InflectedUnit} (hu : IsDeclined (.inflected u)) (count : Nat)
    (tail : Bool) :
    u.form? (agreement count) = some ((ScaleUnit.inflected u).wordFor count tail) ↔
      ¬ (1000 ≤ count ∧ IsTeen count) := by
  obtain ⟨singular, few, plural, base, hfew, hplural, hnodup, hu⟩ := hu
  cases hu
  rw [← selectForm_eq_agreement_iff singular base hfew hplural count tail, ScaleUnit.wordFor,
    InflectedUnit.form, form?_declined singular base hfew hplural,
    form?_declined singular base hfew hplural]
  have hrule := agreement_ne_dual count
  have hform := selectForm_declined_ne_dual singular base hfew hplural count tail
  -- The three words are distinct, so equal words are those of one form.
  simp only [List.nodup_cons, List.mem_cons, List.not_mem_nil, or_false, not_or] at hnodup
  obtain ⟨⟨hsf, hsp⟩, hfp, -⟩ := hnodup
  generalize agreement count = f at hrule ⊢
  generalize InflectedUnit.selectForm _ count tail = g at hform ⊢
  cases f <;> cases g <;> simp_all [Ne.symm]

end Slavic
end Descriptor

/-! ## The units of the two languages -/

/-- A unit above the hundreds stands beside a count, in the form that agrees with it. -/
def Chunk.Agrees (d : Descriptor) : Chunk → Prop
  | .counted position count _ w =>
    0 < position → 0 < count ∧ ∃ u, d.units.toList[position]? = some (.inflected u) ∧
      u.form? (Descriptor.Slavic.agreement count) = some w
  | .whole position _ _ => position = 0
  | _ => True

namespace Language

open Descriptor.Slavic

/-- Russian and Ukrainian. -/
def IsSlavic (l : Language) : Prop := l = .russian ∨ l = .ukrainian

variable {l : Language} {s : Speller} (hl : l.IsSlavic)
include hl

theorem isDeclined_of_mem : ∀ unit ∈ l.descriptor.units.toList.drop 1, IsDeclined unit := by
  intro unit hunit
  rcases hl with rfl | rfl
  · simp only [descriptor, Descriptor.russian, UnitSet.toList, List.drop_succ_cons, List.drop_zero,
      List.mem_cons, List.not_mem_nil, or_false] at hunit
    rcases hunit with rfl | rfl | rfl | rfl | rfl | rfl | rfl | rfl | rfl | rfl | rfl <;>
      exact ⟨_, _, _, _, by decide, by decide, by decide, rfl⟩
  · simp only [descriptor, Descriptor.ukrainian, UnitSet.toList, List.drop_succ_cons,
      List.drop_zero, List.mem_cons, List.not_mem_nil, or_false] at hunit
    rcases hunit with rfl | rfl | rfl | rfl | rfl | rfl | rfl | rfl | rfl | rfl | rfl <;>
      exact ⟨_, _, _, _, by decide, by decide, by decide, rfl⟩

theorem isDeclined_of_getElem? {position : Nat} {unit : ScaleUnit} (hpos : 0 < position)
    (h : l.descriptor.units.toList[position]? = some unit) : IsDeclined unit := by
  apply isDeclined_of_mem hl
  apply List.mem_of_getElem? (i := position - 1)
  rw [List.getElem?_drop, Nat.add_sub_cancel' hpos, h]

/-- Only the decillion, the last unit, is counted from one thousand on. -/
theorem divisor_le_or_decillion (hs : l.descriptor.speller = .ok s) :
    ∀ r ∈ s.rungs, (r.step.divisor.any (· ≤ 1000)) = true ∨
      r.step = { threshold := 10 ^ 33, divisor := some (10 ^ 6) } := by
  rcases hl with rfl | rfl
  · cases hs
    decide +kernel
  · cases hs
    decide +kernel

theorem exists_decillion (hs : l.descriptor.speller = .ok s) :
    ∃ r ∈ s.rungs, 0 < r.position ∧
      r.step = { threshold := 10 ^ 33, divisor := some (10 ^ 6) } := by
  rcases hl with rfl | rfl
  · cases hs
    decide +kernel
  · cases hs
    decide +kernel

end Language

namespace Speller

open Descriptor.Slavic

variable {l : Language} {s : Speller} {f : Frame} {n m : Nat} {c : Chunk} {r : Rung}

section

variable (hl : l.IsSlavic) (hs : l.descriptor.speller = .ok s)
include hl hs

theorem count_of_slavic (hr : r ∈ s.rungs) (k : Nat) :
    r.step.count k < 1000 ∨ r.step.count k = k / 10 ^ 33 % 10 ^ 6 := by
  obtain ⟨-, es, h⟩ := scaled_of_speller hs
  rcases Language.divisor_le_or_decillion hl hs r hr with hany | hstep
  · cases hd : r.step.divisor with
    | none =>
      rw [hd] at hany
      cases hany
    | some d =>
      have hlt := Step.count_lt_divisor hd (h.divisor_pos hr hd) k
      have hle : d ≤ 1000 := by simpa [hd] using hany
      exact .inl (by omega)
  · rw [hstep]
    exact .inr rfl

/-- Above the hundreds a chunk is a count and the word beside it, and below there is no unit. -/
theorem agrees_rungChunk_iff {sub : Nested} (hr : r ∈ s.rungs) (hcount : r.step.count n ≠ 0)
    (hc : s.rungChunk sub f n r = .ok c) :
    c.Agrees l.descriptor ↔
      ¬ (0 < r.position ∧ 1000 ≤ r.step.count n ∧ IsTeen (r.step.count n)) := by
  obtain ⟨hd, es, h⟩ := scaled_of_speller hs
  have hunit := (h.mem_rungs_iff.1 hr).1
  rw [hd] at hunit
  by_cases hpos : 0 < r.position
  · have hdeclined := Language.isDeclined_of_getElem? hl hpos hunit
    obtain ⟨singular, few, plural, base, -, -, -, hu⟩ := id hdeclined
    rw [hu] at hunit hdeclined
    rw [rungChunk, hu] at hc
    obtain ⟨phrase, -, rfl⟩ := map_eq_ok.1 hc
    have hrule := form?_agreement_iff hdeclined (r.step.count n) (n % 100 != 0)
    simp only [Chunk.Agrees, hunit, hpos, true_and, forall_const]
    rw [← hrule]
    constructor
    · rintro ⟨-, u, hu, hform⟩
      cases hu
      exact hform
    · intro hform
      exact ⟨Nat.pos_of_ne_zero hcount, _, rfl, hform⟩
  · have hzero : r.position = 0 := by omega
    rw [rungChunk, hzero] at hc
    rcases unitChunk_eq_ok hc with ⟨phrase, -, rfl⟩ | ⟨w, rfl, -⟩
    · simp [Chunk.Agrees, hzero]
    · simp [Chunk.Agrees, hzero]

theorem lt_of_readInside (hm : s.ReadInside m) : m < 10 ^ 6 := by
  have hten : 10 ^ 6 = 1000000 := rfl
  rcases hm with hlt | ⟨r, hr, k, rfl⟩
  · omega
  · rcases count_of_slavic hl hs hr k with hlt | heq
    · omega
    · rw [heq]
      exact Nat.mod_lt _ (Nat.pow_pos (by decide))

end

/-- Every unit above the hundreds, at every depth, agrees with its count, but for a count of
decillions from one thousand on that ends in 11, 12, 13 or 14. -/
theorem slavic_units_agree_iff {l : Language} (hl : l.IsSlavic) (o : Options)
    (ho : o.selection = .builtIn l) (hn : n < Numeral.magnitudeBound) :
    ∃ s r, l.descriptor.speller = .ok s ∧ s.read (deepestLevel + 1) n o.toFrame = .ok r ∧
      o.spell n = .ok (r.text s.descriptor) ∧
      ((∀ c ∈ r.parts, c.Agrees l.descriptor) ↔
        ¬ (1000 ≤ n / 10 ^ 33 ∧ IsTeen (n / 10 ^ 33))) := by
  obtain ⟨s, hs⟩ := Descriptor.exists_speller l.validate_descriptor
  obtain ⟨hd, es, h⟩ := scaled_of_speller hs
  obtain ⟨w, hw⟩ := exists_spell_of_builtIn (f := o.toFrame) hs hn
  obtain ⟨r, hr, hrw⟩ := map_eq_ok.1 hw
  have hspell : o.spell n = .ok (r.text s.descriptor) := by
    rw [o.spell_eq (s := s) (by rw [ho]; exact hs), hw, hrw]
    rfl
  have hlt : n / 10 ^ 33 < 10 ^ 6 :=
    Nat.div_lt_of_lt_mul (Nat.lt_trans hn (by decide +kernel))
  have hmod : n / 10 ^ 33 % 10 ^ 6 = n / 10 ^ 33 := Nat.mod_eq_of_lt hlt
  refine ⟨s, r, hs, hr, hspell, fun hall hteen => ?_, fun hteen c hc => ?_⟩
  · have hle : 1000 ≤ n := Nat.le_trans hteen.1 (Nat.div_le_self _ _)
    have hnone := Language.wholeWord?_eq_none hs o.toFrame hle
    obtain ⟨rung, hrung, hpos, hstep⟩ := Language.exists_decillion hl hs
    have hcount : rung.step.count n = n / 10 ^ 33 := by
      rw [hstep]
      exact hmod
    have hne : rung.step.count n ≠ 0 := by omega
    obtain ⟨c, hc, hchunk⟩ := mem_parts_of_rung h hnone (by omega) hr hrung hne
    have hagree := (agrees_rungChunk_iff hl hs hrung hne hchunk).1 (hall c hc)
    rw [hcount] at hagree
    exact hagree ⟨hpos, hteen⟩
  · rcases mem_parts_of_read h hr hc with
      ⟨separated, tail, rfl⟩ | ⟨w, rfl⟩ | ⟨m, -, hm, rung, hrung, hne, levels, g, hchunk⟩
    · trivial
    · trivial
    · refine (agrees_rungChunk_iff hl hs hrung hne hchunk).2 fun ⟨_, hle, hend⟩ => ?_
      rcases count_of_slavic hl hs hrung m with hsmall | hcount
      · omega
      · rcases hm with rfl | hinside
        · rw [hcount, hmod] at hle hend
          exact hteen ⟨hle, hend⟩
        · -- A number read inside is below one million, so it has no decillions.
          have hmillion := lt_of_readInside hl hs hinside
          have hzero : m / 10 ^ 33 = 0 :=
            Nat.div_eq_of_lt (Nat.lt_trans hmillion (by decide +kernel))
          rw [hcount, hzero, Nat.zero_mod] at hle
          omega

/-- In Russian 1010 decillions agree with their count and 1011 decillions do not. -/
theorem russian_decillions :
    Language.russian.IsSlavic ∧ 1011 * 10 ^ 33 < Numeral.magnitudeBound ∧
      (∃ s r, Descriptor.russian.speller = .ok s ∧
        s.read (deepestLevel + 1) (1010 * 10 ^ 33) {} = .ok r ∧
        ∀ c ∈ r.parts, c.Agrees Descriptor.russian) ∧
      ∃ s r, Descriptor.russian.speller = .ok s ∧
        s.read (deepestLevel + 1) (1011 * 10 ^ 33) {} = .ok r ∧
        ¬ ∀ c ∈ r.parts, c.Agrees Descriptor.russian := by
  have hl : Language.russian.IsSlavic := .inl rfl
  have hlow : 1010 * 10 ^ 33 < Numeral.magnitudeBound := by decide +kernel
  have hhigh : 1011 * 10 ^ 33 < Numeral.magnitudeBound := by decide +kernel
  have hlowcount : 1010 * 10 ^ 33 / 10 ^ 33 = 1010 := Nat.mul_div_cancel _ (Nat.pow_pos (by decide))
  have hhighcount : 1011 * 10 ^ 33 / 10 ^ 33 = 1011 :=
    Nat.mul_div_cancel _ (Nat.pow_pos (by decide))
  obtain ⟨s, r, hs, hr, -, hagree⟩ :=
    slavic_units_agree_iff hl { selection := .builtIn .russian } rfl hlow
  obtain ⟨s', r', hs', hr', -, hagree'⟩ :=
    slavic_units_agree_iff hl { selection := .builtIn .russian } rfl hhigh
  rw [hlowcount] at hagree
  rw [hhighcount] at hagree'
  refine ⟨hl, hhigh, ⟨s, r, hs, hr, hagree.2 ?_⟩, s', r', hs', hr', fun hall => ?_⟩
  · unfold IsTeen
    omega
  · apply hagree'.1 hall
    unfold IsTeen
    omega

end Speller
end NumberWords
