import NumberWords.Proofs.Speller.TopDown

/-!
What the choices of the caller reach.

A count is spelled with the choices of its unit.  A compound may ask the alternative base for a
word, but only for a number from one hundred on, since compound units stand there and higher
(`hundred_le_of_inflected`).  So where no alternative base has such numbers, the chunks of the units
are the same for every caller, and the choices reach only the part below one hundred
(`spell_eq_lead_append`).
-/

namespace NumberWords

open Fallible

theorem Convention.two_le_exponent {c : Convention} {position e : Nat}
    (h : c.exponent? position = some e) : 2 ≤ e := by
  unfold exponent? at h
  split_ifs at h
  split at h <;> simp only [Option.some.injEq] at h <;> grind

namespace Descriptor

theorem two_le_of_ordered {d : Descriptor} {units : List ScaleUnit} (hu : d.units = .ordered units)
    {es : List Nat} (h : d.exponents = .ok es) : ∀ e ∈ es, 2 ≤ e := by
  unfold exponents at h
  simp only [hu] at h
  split_ifs at h
  cases h
  intro e he
  obtain ⟨position, -, hposition⟩ := List.mem_filterMap.1 he
  exact Convention.two_le_exponent hposition

theorem not_inflected_of_byExponent {d : Descriptor} {words : SortedMap UInt32 String}
    (hu : d.units = .byExponent words) {u : InflectedUnit} :
    .inflected u ∉ d.units.toList := by
  intro hmem
  rw [hu, UnitSet.toList] at hmem
  obtain ⟨w, -, hw⟩ := List.mem_map.1 hmem
  cases hw

def AlternativesBelowHundred (d : Descriptor) : Prop :=
  ∀ lexicon ∈ d.alternatives.values, ∀ e ∈ lexicon.entries, e.1.toNat < 100

instance (d : Descriptor) : Decidable d.AlternativesBelowHundred :=
  inferInstanceAs
    (Decidable (∀ lexicon ∈ d.alternatives.values, ∀ e ∈ lexicon.entries, e.1.toNat < 100))

end Descriptor

namespace Speller

variable {s : Speller} {es : List Nat} {sub : Nested} {f g : Frame} {tail : Bool} {n : Nat}

/-- A unit with grammar is a hundred or more. -/
theorem hundred_le_of_inflected (h : s.Scaled es) {r : Rung} (hr : r ∈ s.rungs) {u : InflectedUnit}
    (hu : r.unit = .inflected u) : 100 ≤ r.step.threshold := by
  have hunit := (h.mem_rungs_iff.1 hr).1
  rw [hu] at hunit
  cases hunits : s.descriptor.units with
  | ordered units =>
    obtain ⟨e, he, -, -, ht⟩ := h.exists_exponent hr
    have hle := Descriptor.two_le_of_ordered hunits h.exponents e (List.mem_of_getElem? he)
    have hpow : 10 ^ 2 ≤ 10 ^ e := Nat.pow_le_pow_right (by decide) hle
    rw [ht]
    exact hpow
  | byExponent words =>
    exact absurd (List.mem_of_getElem? hunit) (Descriptor.not_inflected_of_byExponent hunits)

section

variable (halt : s.descriptor.AlternativesBelowHundred)
include halt

theorem alternative_word?_eq_none (f : Frame) (hn : 100 ≤ n) :
    ((s.alternative? f).bind fun l => l.word? n) = none := by
  refine Option.eq_none_iff_forall_not_mem.2 fun w hw => ?_
  obtain ⟨lexicon, hlexicon, hw⟩ := Option.bind_eq_some_iff.1 hw
  obtain ⟨e, he, hkey, -⟩ := Descriptor.exists_entry_of_word? hw
  have hlt := halt lexicon (alternative?_mem_values hlexicon) e he
  omega

theorem lexiconWord?_eq_base (f : Frame) (hn : 100 ≤ n) :
    s.lexiconWord? f n = s.descriptor.base.word? n := by
  rw [lexiconWord?, alternative_word?_eq_none halt f hn, Option.none_or]

theorem wholeWord?_eq_none_of_base (f : Frame) (hn : 100 ≤ n)
    (hexc : s.descriptor.exceptions.word? n = none) (hbase : s.descriptor.base.word? n = none) :
    s.wholeWord? f n = none := by
  rw [wholeWord?, hexc, alternative_word?_eq_none halt f hn, hbase]
  rfl

/-- The chunk of a unit is the same under all choices. -/
theorem rungChunk_congr_frame (h : s.Scaled es) {r : Rung} (hr : r ∈ s.rungs)
    (hcount : r.step.count n ≠ 0) : s.rungChunk sub f n r = s.rungChunk sub g n r := by
  unfold rungChunk unitChunk
  cases hu : r.unit with
  | plain w => rfl
  | inflected u =>
    have hle := hundred_le_of_inflected h hr hu
    have hmul : 1 * r.step.threshold ≤ r.step.count n * r.step.threshold :=
      Nat.mul_le_mul_right _ (Nat.pos_of_ne_zero hcount)
    simp only [lexiconWord?_eq_base halt _ (n := r.step.count n * r.step.threshold) (by omega)]

theorem chunksOver_congr_frame (h : s.Scaled es) {rs : List Rung} (hrs : rs ⊆ s.rungs) :
    s.chunksOver sub f n rs = s.chunksOver sub g n rs := by
  induction rs with
  | nil => rfl
  | cons r rs ih =>
    obtain ⟨hr, hrs⟩ := List.cons_subset.1 hrs
    by_cases h0 : r.step.count n = 0
    · rw [chunksOver_cons_of_zero h0, chunksOver_cons_of_zero h0, ih hrs]
    · rw [chunksOver_cons h0, chunksOver_cons h0, rungChunk_congr_frame halt h hr h0, ih hrs]

theorem read_of_mod_ne_zero (h : s.Scaled es) (hjoin : s.descriptor.joinsTail = false)
    (hn : 100 ≤ n) (hw : s.wholeWord? f n = none) (htail : n % 100 ≠ 0) (levels : Nat) :
    s.read (levels + 1) n f = (do
      let r ← s.read levels (n % 100) f
      let higher ← s.chunksOver (s.read levels) g n s.rungs
      .ok (.sum (.tail (s.separatesTail f) r :: higher))) := by
  rw [read, readStep_of_le hw hn, readSum_of_not_joinsTail h hjoin, chunks,
    tailChunks_of_ne_zero htail, chunksOver_congr_frame halt h (List.Subset.refl _)]
  cases s.read levels (n % 100) f with
  | error fault => rfl
  | ok r =>
    cases s.chunksOver (s.read levels) g n s.rungs with
    | error fault => rfl
    | ok higher => rfl

theorem spell_congr_frame (h : s.Scaled es) (hjoin : s.descriptor.joinsTail = false)
    (hn : 100 ≤ n) (hwf : s.wholeWord? f n = none) (hwg : s.wholeWord? g n = none)
    (htail : n % 100 = 0) : s.spell n f = s.spell n g := by
  rw [spell_eq_chunks h hjoin hn hwf, spell_eq_chunks h hjoin hn hwg, chunks, chunks,
    tailChunks_eq_nil htail, tailChunks_eq_nil htail,
    chunksOver_congr_frame halt h (List.Subset.refl _)]

end

def lead (s : Speller) (higher : List Chunk) : String :=
  if higher = [] then "" else s.chunksText higher ++ " " ++ s.descriptor.chunkSeparator.getD ""

theorem text_sum_tail (s : Speller) (separated : Bool) (r : Reading) (higher : List Chunk) :
    (Reading.sum (.tail separated r :: higher)).text s.descriptor = s.lead higher
      ++ (if separated then s.descriptor.tailSeparator else "") ++ r.text s.descriptor := by
  have htail : (Chunk.tail separated r).text s.descriptor =
      (if separated then s.descriptor.tailSeparator else "") ++ r.text s.descriptor := by
    cases separated <;> simp [Chunk.text]
  rw [Reading.text, Chunk.texts, htail, Chunk.texts_eq_map, lead]
  by_cases hnil : higher = []
  · subst hnil
    simp [Descriptor.joinChunks]
  · rw [if_neg hnil, s.descriptor.joinChunks_cons _ (by simpa using hnil), chunksText]
    simp only [String.append_assoc]

/-- The words are the lead, which does not depend on the choices, and the tail. -/
theorem spell_eq_lead_append (halt : s.descriptor.AlternativesBelowHundred) (h : s.Scaled es)
    (hjoin : s.descriptor.joinsTail = false) (hn : 100 ≤ n) (hw : s.wholeWord? f n = none)
    (htail : n % 100 ≠ 0) {w : String} (hspell : s.spell n f = .ok w) :
    ∃ r higher, s.chunksOver (s.read deepestLevel) g n s.rungs = .ok higher ∧
      s.read deepestLevel (n % 100) f = .ok r ∧
      s.read (deepestLevel + 1) n f = .ok (.sum (.tail (s.separatesTail f) r :: higher)) ∧
      w = s.lead higher ++ (if s.separatesTail f then s.descriptor.tailSeparator else "")
        ++ r.text s.descriptor := by
  have hread := read_of_mod_ne_zero (g := g) halt h hjoin hn hw htail deepestLevel
  obtain ⟨sum, hsum, rfl⟩ := map_eq_ok.1 hspell
  have hparts := hread.symm.trans hsum
  obtain ⟨r, hr, hparts⟩ := bind_eq_ok.1 hparts
  obtain ⟨higher, hhigher, hparts⟩ := bind_eq_ok.1 hparts
  cases hparts
  exact ⟨r, higher, hhigher, hr, hsum, text_sum_tail s _ r higher⟩

/-- A multiple of one hundred has the same words under all choices.  Any other number has the same
chunks of units under all choices, and its words are the text of these, which no choice changes, and
the words of the part below one hundred. -/
theorem spell_tail_apart {d : Descriptor} {s : Speller} (hs : d.speller = .ok s)
    (hjoin : d.joinsTail = false) (halt : d.AlternativesBelowHundred) {n : Nat} (hn : 100 ≤ n)
    (hbound : n < Numeral.magnitudeBound) (hexc : d.exceptions.word? n = none)
    (hbase : d.base.word? n = none) :
    (n % 100 = 0 → ∀ o₁ o₂ : Options, o₁.selection.descriptor = d →
      o₂.selection.descriptor = d → o₁.spell n = o₂.spell n) ∧
    (n % 100 ≠ 0 → ∃ higher P, ∀ o : Options, o.selection.descriptor = d →
      ∀ w, o.spell n = .ok w → ∃ r tail,
        s.read (deepestLevel + 1) n o.toFrame
          = .ok (.sum (.tail (s.separatesTail o.toFrame) r :: higher)) ∧
        o.spell (n % 100) = .ok tail ∧
        w = P ++ (if o.noAnd && !d.keepsAnd then "" else d.tailSeparator) ++ tail) := by
  obtain ⟨rfl, es, h⟩ := scaled_of_speller hs
  have hwhole (f : Frame) : s.wholeWord? f n = none :=
    wholeWord?_eq_none_of_base halt f hn hexc hbase
  refine ⟨fun htail o₁ o₂ ho₁ ho₂ => ?_, fun htail => ?_⟩
  · rw [o₁.spell_eq (ho₁ ▸ hs), o₂.spell_eq (ho₂ ▸ hs),
      spell_congr_frame halt h hjoin hn (hwhole _) (hwhole _) htail]
  · obtain ⟨higher, hhigher⟩ : ∃ higher, ∀ cs,
        s.chunksOver (s.read deepestLevel) {} n s.rungs = .ok cs → cs = higher := by
      cases s.chunksOver (s.read deepestLevel) {} n s.rungs with
      | error fault => exact ⟨[], fun cs hcs => (nomatch hcs)⟩
      | ok higher => exact ⟨higher, fun cs hcs => (Except.ok.inj hcs).symm⟩
    refine ⟨higher, s.lead higher, fun o ho w hw => ?_⟩
    have hlt : n % 100 < Numeral.magnitudeBound := Nat.lt_of_le_of_lt (Nat.mod_le n 100) hbound
    have hso : o.selection.descriptor.speller = .ok s := ho ▸ hs
    rw [o.spell_eq hso] at hw
    obtain ⟨r, cs, hcs, hr, hread, rfl⟩ :=
      spell_eq_lead_append halt h hjoin hn (hwhole o.toFrame) htail (mapError_eq_ok.1 hw)
    obtain rfl := hhigher cs hcs
    refine ⟨r, r.text s.descriptor, hread, ?_, ?_⟩
    · rw [o.spell_eq hso, spell_eq_read h hlt, hr]
      rfl
    · rw [separatesTail]
      cases o.noAnd <;> cases s.descriptor.keepsAnd <;> rfl

/-- In Russian with a conjunction before the tail, the feminine and the missing conjunction change
nothing before the last word of two million one hundred thousand one hundred and one. -/
theorem russian_choices_reach_tail :
    let d := { Descriptor.russian with tailSeparator := "и " }
    let plain : Options := { selection := .custom d }
    let feminine : Options :=
      { selection := .custom d, alternative := some "feminine", noAnd := true }
    ∃ s P, d.speller = .ok s ∧ d.AlternativesBelowHundred ∧
      plain.spell 2100101 = .ok (P ++ "и " ++ "один") ∧
      feminine.spell 2100101 = .ok (P ++ "" ++ "одна") := by
  intro d plain feminine
  have hd : d.validate = .ok () := by decide
  have halt : d.AlternativesBelowHundred := by decide
  have hplain : plain.spell 2100101 = .ok "два миллиона сто тысяч сто и один" := by decide +kernel
  have hfeminine : feminine.spell 2100101 = .ok "два миллиона сто тысяч сто одна" := by
    decide +kernel
  obtain ⟨s, hs⟩ := d.exists_speller hd
  obtain ⟨-, htail⟩ := spell_tail_apart hs rfl halt (n := 2100101) (by decide) (by decide)
    (by decide) (by decide)
  obtain ⟨higher, P, hall⟩ := htail (by decide)
  obtain ⟨-, tail, -, hone, hw⟩ := hall plain rfl _ hplain
  obtain ⟨-, tail', -, hone', hw'⟩ := hall feminine rfl _ hfeminine
  have hspell : plain.spell 1 = .ok "один" := by decide +kernel
  have hspell' : feminine.spell 1 = .ok "одна" := by decide +kernel
  obtain rfl := Except.ok.inj (hone.symm.trans hspell)
  obtain rfl := Except.ok.inj (hone'.symm.trans hspell')
  exact ⟨s, P, hs, halt, by rw [hplain, hw]; rfl, by rw [hfeminine, hw']; rfl⟩

end Speller
end NumberWords
