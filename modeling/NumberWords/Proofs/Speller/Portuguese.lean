import NumberWords.Proofs.Speller.Conjunction

/-!
The Portuguese conjunction.

A conjunction comes into a text in two ways: as the separator of the tail, and put in by itself
after a lowest chunk when something is left over.  Hundreds and a bare thousand are left over, since
they take nothing from the number.  Read from the top, this is a rule for the rest alone: the
conjunction stands before a tail and before a whole hundred up to one thousand
(`portuguese_conjunction`).
-/

namespace NumberWords

/-- A rest that the conjunction stands before: a tail, or a whole hundred up to one thousand. -/
def TakesConjunction (rest : Nat) : Prop := rest < 100 ∨ rest ≤ 1000 ∧ 100 ∣ rest

instance (rest : Nat) : Decidable (TakesConjunction rest) :=
  inferInstanceAs (Decidable (_ ∨ _))

def Language.IsPortuguese (l : Language) : Prop :=
  l = .brazilianPortuguese ∨ l = .europeanPortuguese

namespace Portuguese

def hundred : InflectedUnit :=
  { singular := "cento", compound := true, compoundExceptions := [1], exceptionsNeedTail := true }

def thousand : InflectedUnit := { singular := "mil", bareCounts := [1] }

def HasGrammar (threshold : Nat) (u : InflectedUnit) : Prop :=
  threshold = 100 ∧ u = hundred ∨ threshold = 1000 ∧ u = thousand ∨
    1000 < threshold ∧ u.plural.any (· != "") = true ∧
      u = { singular := u.singular, plural := u.plural }

instance (threshold : Nat) (u : InflectedUnit) : Decidable (HasGrammar threshold u) :=
  inferInstanceAs (Decidable (_ ∨ _))

/-- What a unit and its count are called before a rest. -/
inductive IsHead (l : Language) (u : InflectedUnit) : Nat → Nat → String → Prop
  | oneHundred : IsHead l u 100 1 "cento"
  | hundreds {count : Nat} {w : String} (hcount : count ≠ 1)
      (hw : l.descriptor.base.word? (count * 100) = some w) : IsHead l u 100 count w
  | oneThousand : IsHead l u 1000 1 "mil"
  | counted {threshold count : Nat} {phrase : String} (hle : 1000 ≤ threshold)
      (hbare : ¬ (threshold = 1000 ∧ count = 1))
      (hphrase : ({ selection := .builtIn l, noAnd := true } : Options).spell count = .ok phrase) :
      IsHead l u threshold count
        (phrase ++ " " ++ if count = 1 then u.singular else u.plural.getD u.singular)

theorem listed_one (count : Nat) : listed [1] count = decide (count = 1) := by
  rw [Bool.eq_iff_iff, decide_eq_true_iff]
  simpa [listed] using eq_comm

theorem wordFor_of_hasGrammar {threshold : Nat} {u : InflectedUnit} (h : HasGrammar threshold u)
    (count : Nat) (tail : Bool) : (ScaleUnit.inflected u).wordFor count tail
      = if count = 1 then u.singular else u.plural.getD u.singular := by
  rcases h with ⟨-, rfl⟩ | ⟨-, rfl⟩ | ⟨-, hplural, hu⟩
  · simp [ScaleUnit.wordFor, InflectedUnit.selectForm, InflectedUnit.form, InflectedUnit.form?,
      hundred]
  · simp [ScaleUnit.wordFor, InflectedUnit.selectForm, InflectedUnit.form, InflectedUnit.form?,
      thousand]
  · rw [hu]
    cases hp : u.plural with
    | none =>
      rw [hp] at hplural
      cases hplural
    | some p =>
      have hne : p ≠ "" := by simpa [hp] using hplural
      by_cases hcount : count = 1 <;>
        simp [ScaleUnit.wordFor, InflectedUnit.selectForm, InflectedUnit.form,
          InflectedUnit.form?, Option.filter, hcount, hne]

theorem HasGrammar.compound_cases {threshold : Nat} {u : InflectedUnit}
    (h : HasGrammar threshold u) : threshold = 100 ∧ u = hundred ∨ 1000 ≤ threshold ∧
      u.compound = false ∧
      (∀ count, listed u.bareCounts count = true ↔ threshold = 1000 ∧ count = 1) ∧
      u.countBase = none ∧ u.keepsAnd = false := by
  rcases h with h | ⟨rfl, rfl⟩ | ⟨hlt, -, hu⟩
  · exact .inl h
  · exact .inr ⟨Nat.le_refl _, rfl, by simp [thousand, listed_one], rfl, rfl⟩
  · rw [hu]
    refine .inr ⟨Nat.le_of_lt hlt, rfl, fun count => ?_, rfl, rfl⟩
    have hne : threshold ≠ 1000 := by omega
    simp [listed, hne]

theorem HasGrammar.eq_of_bare {threshold count : Nat} {u : InflectedUnit}
    (h : HasGrammar threshold u)
    (hbare : ¬ (1000 ≤ threshold ∧ ¬ (threshold = 1000 ∧ count = 1))) :
    u = hundred ∨ u = thousand := by
  rcases h with ⟨-, hu⟩ | ⟨-, hu⟩ | ⟨hlt, -⟩
  · exact .inl hu
  · exact .inr hu
  · omega

def isGrammatical (threshold : Nat) : ScaleUnit → Bool
  | .plain _ => false
  | .inflected u => HasGrammar threshold u

theorem exists_of_isGrammatical {threshold : Nat} {u : ScaleUnit}
    (h : isGrammatical threshold u = true) : ∃ u', u = .inflected u' ∧ HasGrammar threshold u' := by
  cases u with
  | plain w => cases h
  | inflected u => exact ⟨u, rfl, of_decide_eq_true h⟩

end Portuguese

namespace Speller

open Fallible

variable {s : Speller} {es : List Nat} {sub : Nested} {f : Frame} {n : Nat}
variable {lower : List Chunk} {c c' : Chunk}

structure IsPortuguese (s : Speller) : Prop where
  joinsTail : s.descriptor.joinsTail = true
  tailSeparator : s.descriptor.tailSeparator = "e "
  chunkSeparator : s.descriptor.chunkSeparator = none
  keepsAnd : s.descriptor.keepsAnd = false
  alternatives : s.descriptor.alternatives = SortedMap.empty
  opening : ∀ lexicon ∈ s.descriptor.lexicons, ∀ e ∈ lexicon.entries,
    e.2.toList.head?.any (· != 'e') = true
  grammar : ∀ r ∈ s.rungs, ∃ u, r.unit = .inflected u ∧
    Portuguese.HasGrammar r.step.threshold u
  thousand : (s.scale.step? 1).map (·.threshold) = some 1000
  unbounded : ∀ last, s.scale.steps.getLast? = some (some last) →
    Numeral.magnitudeBound ≤ last.threshold * ScaleTable.lastDivisor

theorem isPortuguese_of_language {l : Language} (hl : l.IsPortuguese)
    (hs : l.descriptor.speller = .ok s) : s.IsPortuguese := by
  have hgrammar : ∀ r ∈ s.rungs, Portuguese.isGrammatical r.step.threshold r.unit = true := by
    rcases hl with rfl | rfl <;> (cases hs; decide +kernel)
  have hexists : ∀ r ∈ s.rungs, ∃ u, r.unit = .inflected u ∧
      Portuguese.HasGrammar r.step.threshold u :=
    fun r hr => Portuguese.exists_of_isGrammatical (hgrammar r hr)
  have hunbounded : ∀ last, s.scale.steps.getLast? = some (some last) →
      Numeral.magnitudeBound ≤ last.threshold * ScaleTable.lastDivisor := by
    intro last hlast
    rcases hl with rfl | rfl
    · cases hs
      cases hlast
      decide +kernel
    · cases hs
      cases hlast
  rcases hl with rfl | rfl
  · cases hs
    exact ⟨rfl, rfl, rfl, rfl, rfl, by decide, hexists, rfl, hunbounded⟩
  · cases hs
    exact ⟨rfl, rfl, rfl, rfl, rfl, by decide, hexists, rfl, hunbounded⟩

namespace IsPortuguese

variable (hp : s.IsPortuguese) (h : s.Scaled es)
include hp

theorem alternative?_eq_none (f : Frame) : s.alternative? f = none := by
  rw [alternative?, hp.alternatives]
  cases f.alternative <;> rfl

theorem not_isPrefixOf {m : Nat} {w : String} (hw : s.descriptor.Has m w) (rest : String) :
    s.descriptor.tailSeparator.toList.isPrefixOf (w ++ rest).toList = false := by
  obtain ⟨lexicon, hlexicon, e, he, -, rfl⟩ := hw
  have hhead := hp.opening lexicon hlexicon e he
  rw [hp.tailSeparator, String.toList_append]
  cases hchars : e.2.toList with
  | nil =>
    rw [hchars] at hhead
    cases hhead
  | cons first more =>
    have hne : first ≠ 'e' := by simpa [hchars] using hhead
    simp [List.isPrefixOf, Ne.symm hne]

theorem trim_tailSeparator : Text.trim s.descriptor.tailSeparator = "e" := by
  rw [hp.tailSeparator]
  decide

theorem chunksText_concat (hne : lower ≠ []) (c : Chunk) :
    s.chunksText (lower ++ [c]) = c.text s.descriptor ++ " " ++ s.chunksText lower := by
  rw [chunksText_append hne, hp.chunkSeparator]
  exact congrArg _ String.empty_append

/-! ### The chunks of units -/

theorem isCounted_rungChunk_iff {r : Rung} (hr : r ∈ s.rungs)
    (hc : s.rungChunk sub f n r = .ok c) :
    c.isCounted = true ↔
      1000 ≤ r.step.threshold ∧ ¬ (r.step.threshold = 1000 ∧ r.step.count n = 1) := by
  obtain ⟨u, hu, hgrammar⟩ := hp.grammar r hr
  rw [rungChunk, hu] at hc
  rw [isCounted_unitChunk hc]
  rcases hgrammar.compound_cases with ⟨ht, rfl⟩ | ⟨hle, hcompound, hbare, -, -⟩
  · simp [ht, Portuguese.hundred]
  · rw [hcompound, ← hbare]
    simp [hle]

/-- A chunk that takes nothing from the number does not begin with the conjunction. -/
theorem not_isPrefixOf_rungChunk {r : Rung} (hr : r ∈ s.rungs)
    (hc : s.rungChunk sub f n r = .ok c) (hcounted : c.isCounted = false) :
    s.descriptor.tailSeparator.toList.isPrefixOf (c.text s.descriptor).toList = false := by
  obtain ⟨u, hu, hgrammar⟩ := hp.grammar r hr
  have hbare := (hp.isCounted_rungChunk_iff hr hc).not.1 (by rw [hcounted]; decide)
  have hkind := hgrammar.eq_of_bare hbare
  have hform (tail : Bool) :
      (ScaleUnit.inflected u).wordFor (r.step.count n) tail = u.singular := by
    rw [Portuguese.wordFor_of_hasGrammar hgrammar]
    rcases hkind with rfl | rfl <;> exact ite_self _
  have hsingular : s.descriptor.tailSeparator.toList.isPrefixOf u.singular.toList = false := by
    rw [hp.tailSeparator]
    rcases hkind with rfl | rfl <;> decide
  rw [rungChunk, hu] at hc
  rcases unitChunk_eq_ok hc with
    ⟨phrase, -, rfl⟩ | ⟨w, rfl, hword | ⟨u', hu', hcompound, hown⟩ | hw⟩
  · cases hcounted
  · rwa [Chunk.text, hword, hform]
  · cases hu'
    rcases hkind with rfl | rfl
    · have hself : Portuguese.hundred.ownWord (r.step.count n) = Portuguese.hundred.singular :=
        ite_self _
      rwa [Chunk.text, hown, hself]
    · cases hcompound
  · have hprefix := hp.not_isPrefixOf (has_of_lexiconWord? hw) ""
    rwa [String.append_empty] at hprefix

theorem isCounted_of_lt_thousand (hn : n < 1000) (hlower : s.chunks sub f n = .ok lower) :
    ∀ c ∈ lower, c.isCounted = false := by
  obtain ⟨lowest, higher, hlowest, hhigher, rfl⟩ := chunks_eq_ok hlower
  refine List.forall_mem_append.2 ⟨isCounted_tailChunks hlowest, fun c hc => ?_⟩
  obtain ⟨r, hr, hcount, hchunk⟩ := exists_rung_of_mem hhigher hc
  have hle := Step.threshold_le_of_count hcount
  apply Bool.eq_false_iff.2
  rw [Ne, hp.isCounted_rungChunk_iff hr hchunk]
  omega

/-! ### The text of a rest below a head -/

/-- A rest of one chunk that takes nothing from the number has the conjunction before it. -/
theorem chunksText_conjoin_pair (hc' : c'.isCounted = false) {w : String}
    (htext : c'.text s.descriptor = s.descriptor.tailSeparator ++ w ∨
      c'.text s.descriptor = w ∧
        s.descriptor.tailSeparator.toList.isPrefixOf w.toList = false) (c : Chunk) :
    s.chunksText (s.conjoin (uncounted [c', c]) [c', c]) = c.text s.descriptor ++ " e " ++ w := by
  rw [conjoin_pair hp.joinsTail hc']
  rcases htext with htext | ⟨htext, hprefix⟩
  · have hprefix : s.descriptor.tailSeparator.toList.isPrefixOf
        (c'.text s.descriptor).toList = true := by
      rw [htext, String.toList_append, List.isPrefixOf_iff_prefix]
      exact List.prefix_append _ _
    rw [if_pos hprefix]
    calc s.chunksText [c', c]
      _ = c.text s.descriptor ++ " " ++ c'.text s.descriptor :=
        hp.chunksText_concat (List.cons_ne_nil c' []) c
      _ = c.text s.descriptor ++ (" " ++ "e ") ++ w := by
        rw [htext, hp.tailSeparator]
        simp only [String.append_assoc]
  · rw [htext, hprefix, hp.trim_tailSeparator]
    calc s.chunksText [c', .conjunction "e", c]
      _ = c.text s.descriptor ++ " " ++ ("e" ++ " " ++ c'.text s.descriptor) := by
        have hpair := hp.chunksText_concat (List.cons_ne_nil c' []) (.conjunction "e")
        have htriple := hp.chunksText_concat (List.cons_ne_nil c' [.conjunction "e"]) c
        exact htriple.trans (congrArg _ hpair)
      _ = c.text s.descriptor ++ (" " ++ "e" ++ " ") ++ w := by
        rw [htext]
        simp only [String.append_assoc]

variable (hfirst : (s.scale.step? 0).map (·.threshold) = some 100)

theorem lt_last (hn : n < Numeral.magnitudeBound) :
    ∀ last, s.scale.steps.getLast? = some (some last) →
      n < last.threshold * ScaleTable.lastDivisor :=
  fun last hlast => Nat.lt_of_lt_of_le hn (hp.unbounded last hlast)

theorem lt_thousand_of_top {top : Rung} (htop : s.Top n top) (ht : top.step.threshold = 100) :
    n < 1000 := by
  obtain ⟨step, hstep, hthousand⟩ := Option.map_eq_some_iff.1 hp.thousand
  apply Nat.lt_of_not_le
  intro hle
  have hgreatest := htop.greatest 1 step hstep (by omega)
  omega

theorem threshold_cases {r : Rung} (hr : r ∈ s.rungs) :
    r.step.threshold = 100 ∨ 1000 ≤ r.step.threshold := by
  obtain ⟨u, -, ⟨ht, -⟩ | ⟨ht, -⟩ | ⟨ht, -⟩⟩ := hp.grammar r hr
  · exact .inl ht
  · exact .inr (by omega)
  · exact .inr (by omega)

/-- The conjunction stands before a rest that is one chunk and takes nothing from the number. -/
theorem takesConjunction_iff {top : Rung} (hmem : top ∈ s.rungs) (htop : s.Top n top)
    (hn : 100 ≤ n) : TakesConjunction n ↔ n % top.step.threshold = 0 ∧
      ¬ (1000 ≤ top.step.threshold ∧
        ¬ (top.step.threshold = 1000 ∧ n / top.step.threshold = 1)) := by
  have hle := htop.le
  unfold TakesConjunction
  rcases hp.threshold_cases hmem with ht | ht
  · have hlt := hp.lt_thousand_of_top htop ht
    rw [ht]
    omega
  · constructor
    · rintro (hlt | ⟨hthousand, -⟩)
      · omega
      · obtain rfl : n = 1000 := by omega
        have hone : top.step.threshold = 1000 := by omega
        rw [hone]
        decide
    · rintro ⟨hzero, hbare⟩
      have hone : top.step.threshold = 1000 := by omega
      rw [hone] at hzero hbare
      omega

include h hfirst

/-- Below one thousand there is a chunk, and none takes anything from the number. -/
theorem countP_pos_of_lt_thousand (hpos : 0 < n) (hn : n < 1000)
    (hlower : s.chunks sub f n = .ok lower) : 0 < lower.countP (!·.isCounted) := by
  have hall := hp.isCounted_of_lt_thousand hn hlower
  have hlength : lower.countP (!·.isCounted) = lower.length :=
    List.countP_eq_length.2 fun c hc => by rw [hall c hc]; rfl
  have hne : lower ≠ [] := by
    rintro rfl
    exact chunks_ne_nil h hfirst hpos (hp.lt_last (Nat.lt_trans hn (by decide))) hlower
  rw [hlength]
  exact List.length_pos_iff.2 hne

/-- Whether the conjunction is put in depends on the rest alone. -/
theorem chunksText_conjoin_sum (hn : 100 ≤ n) (hbound : n < Numeral.magnitudeBound)
    (hlower : s.chunks sub f n = .ok lower) (c : Chunk) :
    s.chunksText (s.conjoin (uncounted (lower ++ [c])) (lower ++ [c]))
      = c.text s.descriptor ++ (if TakesConjunction n then " e " else " ")
        ++ s.chunksText (s.conjoin (uncounted lower) lower) := by
  obtain ⟨top, hmem, htop, hcount, hchunks⟩ := exists_top_chunks h hfirst hn (hp.lt_last hbound)
  rw [hchunks] at hlower
  obtain ⟨lower, hbelow, hlower⟩ := bind_eq_ok.1 hlower
  obtain ⟨c', hc', hlower⟩ := bind_eq_ok.1 hlower
  cases hlower
  have hcounted := hp.isCounted_rungChunk_iff hmem hc'
  have htakes := hp.takesConjunction_iff hmem htop hn
  rw [hcount] at hcounted
  rw [← hcounted, Bool.not_eq_true] at htakes
  by_cases hjoin : TakesConjunction n
  · obtain ⟨hzero, hbare⟩ := htakes.1 hjoin
    rw [hzero, chunks_zero h] at hbelow
    cases hbelow
    have hprefix := hp.not_isPrefixOf_rungChunk hmem hc' hbare
    rw [if_pos hjoin]
    show s.chunksText (s.conjoin (uncounted [c', c]) [c', c])
      = c.text s.descriptor ++ " e " ++ s.chunksText (s.conjoin 0 [c'])
    rw [hp.chunksText_conjoin_pair hbare (.inr ⟨rfl, hprefix⟩), conjoin_zero]
    rfl
  · have hconcat : lower ++ [c'] ≠ [] := List.append_ne_nil_of_right_ne_nil _ (List.cons_ne_nil _ _)
    have hiff : uncounted (lower ++ [c'] ++ [c]) = 0 ↔ uncounted (lower ++ [c']) = 0 := by
      rw [uncounted_concat, uncounted_concat, List.countP_append]
      cases hbare : c'.isCounted with
      | true => simp [hbare]
      | false =>
        -- The rest below a hundred or a bare thousand is not empty, and nothing in it is counted.
        have hrest : n % top.step.threshold ≠ 0 := fun hzero => hjoin (htakes.2 ⟨hzero, hbare⟩)
        have hlt : n % top.step.threshold < 1000 := by
          have hmod := Nat.mod_lt n (h.threshold_pos hmem)
          rw [hbare] at hcounted
          simp only [Bool.false_eq_true, false_iff] at hcounted
          omega
        have hpos := hp.countP_pos_of_lt_thousand h hfirst (Nat.pos_of_ne_zero hrest) hlt hbelow
        omega
    rw [if_neg hjoin, Speller.chunksText_conjoin_concat hconcat hiff, hp.chunkSeparator]
    exact congrArg _ String.empty_append

theorem chunksText_conjoin_tail {l : Language} (hs : l.descriptor.speller = .ok s) (hpos : 0 < n)
    (hn : n < 100) (hlower : s.chunks (s.read deepestLevel) f n = .ok lower) {rest : String}
    (hrest : s.spell n f = .ok rest) (c : Chunk) :
    s.chunksText (s.conjoin (uncounted (lower ++ [c])) (lower ++ [c]))
      = c.text s.descriptor ++ " e " ++ rest := by
  rw [chunks_eq_tail h hfirst hpos hn] at hlower
  rw [spell_eq_read h (Nat.lt_trans hn (by decide))] at hrest
  obtain ⟨r, hr, rfl⟩ := map_eq_ok.1 hlower
  obtain ⟨r', hr', rfl⟩ := map_eq_ok.1 hrest
  obtain rfl := Except.ok.inj (hr'.symm.trans hr)
  obtain ⟨m, w, more, hw, htext⟩ := text_of_lt_hundred hs hn hr
  have hprefix := hp.not_isPrefixOf hw more
  rw [← htext] at hprefix
  refine hp.chunksText_conjoin_pair rfl ?_ c
  cases s.separatesTail f with
  | true => exact .inl rfl
  | false => exact .inr ⟨rfl, hprefix⟩

/-! ### The law -/

/-- A number is said as a head and, after the conjunction or a space, its rest. -/
theorem spell_eq_head {l : Language} (hs : l.descriptor.speller = .ok s) (hn : 100 ≤ n)
    (hbound : n < Numeral.magnitudeBound) :
    ∃ top ∈ s.rungs, s.Top n top ∧ ∀ f, ∃ head, s.headWords f n top = .ok head ∧
      (n % top.step.threshold = 0 → s.spell n f = .ok head) ∧
      (0 < n % top.step.threshold → ∃ rest, s.spell (n % top.step.threshold) f = .ok rest ∧
        s.spell n f = .ok (head
          ++ (if TakesConjunction (n % top.step.threshold) then " e " else " ") ++ rest)) := by
  obtain ⟨top, hmem, htop, hcount, hchunks⟩ := exists_top_chunks h hfirst hn (hp.lt_last hbound)
  refine ⟨top, hmem, htop, fun f => ?_⟩
  have hrest_bound := Nat.lt_of_le_of_lt (Nat.mod_le n top.step.threshold) hbound
  obtain ⟨w, hw⟩ := exists_spell_of_builtIn (f := f) hs hbound
  obtain ⟨rest, hrest⟩ := exists_spell_of_builtIn (f := f) hs hrest_bound
  have hspell := spell_eq_conjoin (f := f) hs hn
  have hhead := text_rungChunk (f := f) h hbound hcount
  rw [hw, hchunks] at hspell
  obtain ⟨cs, hcs, rfl⟩ := map_eq_ok.1 hspell.symm
  obtain ⟨lower, hlower, hcs⟩ := bind_eq_ok.1 hcs
  obtain ⟨c, hc, hcs⟩ := bind_eq_ok.1 hcs
  cases hcs
  rw [hc] at hhead
  refine ⟨c.text s.descriptor, hhead.symm, fun hzero => ?_, fun hpos => ⟨rest, hrest, ?_⟩⟩
  · rw [hzero, chunks_zero h] at hlower
    cases hlower
    rw [hw]
    show Except.ok (s.chunksText (s.conjoin 0 [c])) = _
    rw [conjoin_zero]
    rfl
  · rw [hw]
    rcases Nat.lt_or_ge (n % top.step.threshold) 100 with hlt | hle
    · rw [hp.chunksText_conjoin_tail h hfirst hs hpos hlt hlower hrest, if_pos (.inl hlt)]
    · have hsum := spell_eq_conjoin (f := f) hs hle
      rw [hrest, hlower] at hsum
      rw [hp.chunksText_conjoin_sum h hfirst hle hrest_bound hlower c, Except.ok.inj hsum]

theorem spell_congr_frame {l : Language} (hs : l.descriptor.speller = .ok s)
    (hbound : n < Numeral.magnitudeBound) (f g : Frame) : s.spell n f = s.spell n g := by
  have hframe : s.alternative? f = s.alternative? g := by
    rw [hp.alternative?_eq_none, hp.alternative?_eq_none]
  induction n using Nat.strong_induction_on with
  | h n ih =>
    rcases Nat.lt_or_ge n 100 with hlt | hn
    · rw [spell, spell, read_congr_alternative hframe hlt]
    · obtain ⟨top, hmem, htop, hsaid⟩ := hp.spell_eq_head h hfirst hs hn hbound
      obtain ⟨head, hhead, hzero, hpos⟩ := hsaid f
      obtain ⟨head', hhead', hzero', hpos'⟩ := hsaid g
      rw [headWords_congr_alternative hframe, hhead'] at hhead
      cases hhead
      rcases Nat.eq_zero_or_pos (n % top.step.threshold) with h0 | hrest
      · rw [hzero h0, hzero' h0]
      · obtain ⟨rest, hr, hw⟩ := hpos hrest
        obtain ⟨rest', hr', hw'⟩ := hpos' hrest
        have hlt : n % top.step.threshold < n :=
          Nat.lt_of_lt_of_le (Nat.mod_lt n (h.threshold_pos hmem)) htop.le
        rw [ih _ hlt (Nat.lt_trans hlt hbound), hr'] at hr
        cases hr
        rw [hw, hw']

omit h hfirst in
/-- One hundred before a rest has a word of its own, and the other hundreds have words in the
base. -/
theorem isHead_hundred {l : Language} (hs : l.descriptor.speller = .ok s) {top : Rung}
    (hmem : top ∈ s.rungs) (hu : top.unit = .inflected Portuguese.hundred)
    (ht : top.step.threshold = 100) (hrest : 0 < n % 100) {head : String}
    (hhead : s.headWords f n top = .ok head) :
    Portuguese.IsHead l Portuguese.hundred 100 (n / 100) head := by
  obtain ⟨hd, -⟩ := scaled_of_speller hs
  have hposition := (Language.rung_below_thousand hs top hmem (by omega)).1
  rw [headWords_of_compound hu rfl, ht] at hhead
  by_cases hone : n / 100 = 1
  · rw [if_pos (by simp [Portuguese.hundred, Portuguese.listed_one, hone, hposition, hrest.ne']),
      hone] at hhead
    cases hhead
    rw [hone]
    exact .oneHundred
  · rw [if_neg (by simp [Portuguese.hundred, Portuguese.listed_one, hone]), lexiconWord?,
      hp.alternative?_eq_none] at hhead
    cases hw : s.descriptor.base.word? (n / 100 * 100) with
    | none => simp [hw] at hhead
    | some w =>
      simp only [hw, Option.bind_none, Option.none_or] at hhead
      cases hhead
      exact .hundreds hone (hd ▸ hw)

omit h hfirst in
theorem isHead_of_headWords {l : Language} (hs : l.descriptor.speller = .ok s) {top : Rung}
    (hmem : top ∈ s.rungs) (hrest : 0 < n % top.step.threshold) {head : String}
    (hhead : s.headWords f n top = .ok head) :
    ∃ u, top.unit = .inflected u ∧
      Portuguese.IsHead l u top.step.threshold (n / top.step.threshold) head := by
  obtain ⟨u, hu, hgrammar⟩ := hp.grammar top hmem
  refine ⟨u, hu, ?_⟩
  have hword := Portuguese.wordFor_of_hasGrammar hgrammar (n / top.step.threshold) (n % 100 != 0)
  rcases hgrammar.compound_cases with ⟨ht, rfl⟩ | ⟨hle, hcompound, hbare, hbase, hand⟩
  · rw [ht] at hrest ⊢
    exact hp.isHead_hundred hs hmem hu ht hrest hhead
  · by_cases hone : top.step.threshold = 1000 ∧ n / top.step.threshold = 1
    · rw [headWords_of_bare hu hcompound ((hbare _).2 hone), hword, if_pos hone.2] at hhead
      cases hhead
      rcases hgrammar with ⟨ht, -⟩ | ⟨-, rfl⟩ | ⟨hlt, -⟩
      · omega
      · rw [hone.2, hone.1]
        exact .oneThousand
      · omega
    · rw [headWords_of_counted hu hcompound ((hbare _).not.2 hone), hword] at hhead
      obtain ⟨phrase, hphrase, rfl⟩ := map_eq_ok.1 hhead
      rw [countFrame, hbase, hand, hp.keepsAnd] at hphrase
      have hspell := Options.spell_eq { selection := .builtIn l, noAnd := true } hs
      exact .counted hle hone ((hspell _).trans (mapError_eq_ok.2 hphrase))

end IsPortuguese


/-- In Portuguese a number from one hundred on is a head, the conjunction or a space, and the number
that rests.  The conjunction stands before a tail, a whole hundred below one thousand, and one
thousand.  No choice of the caller changes the text. -/
theorem portuguese_conjunction {l : Language} (hl : l.IsPortuguese) (o : Options)
    (ho : o.selection = .builtIn l) (hbound : n < Numeral.magnitudeBound) :
    (∀ o' : Options, o'.selection = .builtIn l → o'.spell n = o.spell n) ∧
      (100 ≤ n → ∃ s top u, l.descriptor.speller = .ok s ∧ s.Top n top ∧
        top.unit = .inflected u ∧ (0 < n % top.step.threshold → ∃ head rest,
          Portuguese.IsHead l u top.step.threshold (n / top.step.threshold) head ∧
          o.spell (n % top.step.threshold) = .ok rest ∧
          o.spell n = .ok (head
            ++ (if TakesConjunction (n % top.step.threshold) then " e " else " ") ++ rest))) := by
  obtain ⟨s, hs⟩ := Descriptor.exists_speller l.validate_descriptor
  obtain ⟨-, es, h⟩ := scaled_of_speller hs
  have hp := isPortuguese_of_language hl hs
  have hfirst := Language.threshold_first hs
  have hspell (o : Options) (ho : o.selection = .builtIn l) (m : Nat) :
      o.spell m = (s.spell m o.toFrame).mapError .spelling :=
    o.spell_eq (by rw [ho]; exact hs) m
  refine ⟨fun o' ho' => ?_, fun hn => ?_⟩
  · rw [hspell o ho, hspell o' ho', hp.spell_congr_frame h hfirst hs hbound]
  · obtain ⟨top, hmem, htop, hsaid⟩ := hp.spell_eq_head h hfirst hs hn hbound
    obtain ⟨head, hhead, -, hpos⟩ := hsaid o.toFrame
    obtain ⟨u, hu, -⟩ := hp.grammar top hmem
    refine ⟨s, top, u, hs, htop, hu, fun hrest => ?_⟩
    obtain ⟨u', hu', hishead⟩ := hp.isHead_of_headWords hs hmem hrest hhead
    obtain rfl : u' = u := ScaleUnit.inflected.inj (hu'.symm.trans hu)
    obtain ⟨rest, hr, hw⟩ := hpos hrest
    refine ⟨head, rest, hishead, ?_, ?_⟩
    · rw [hspell o ho, hr]
      rfl
    · rw [hspell o ho, hw]
      rfl

/-- In Brazilian Portuguese one thousand one hundred is a thousand, the conjunction and a hundred,
also where the caller wants no conjunctions. -/
theorem brazilian_thousand_and_hundred :
    let o : Options := { selection := .builtIn .brazilianPortuguese, noAnd := true }
    Language.brazilianPortuguese.IsPortuguese ∧ ∃ u head rest,
      Portuguese.IsHead .brazilianPortuguese u 1000 1 head ∧ o.spell 100 = .ok rest ∧
      o.spell 1100 = .ok (head ++ " e " ++ rest) := by
  intro o
  have hl : Language.brazilianPortuguese.IsPortuguese := .inl rfl
  obtain ⟨-, hsaid⟩ := portuguese_conjunction hl o rfl (n := 1100) (by decide)
  obtain ⟨s, top, u, hs, htop, -, hrest⟩ := hsaid (by decide)
  obtain ⟨-, es, h⟩ := scaled_of_speller hs
  have hthresholds : ∀ r ∈ s.rungs, 1000 ≤ r.step.threshold → r.step.threshold ≤ 1100 →
      r.step.threshold = 1000 := by
    cases hs
    decide
  have hthousand : s.scale.step? 1 = some { threshold := 1000, divisor := some 1000 } := by
    cases hs
    rfl
  have ht := hthresholds top (h.mem_rungs_iff.2 ⟨htop.unit, htop.step⟩)
    (htop.greatest 1 _ hthousand (by decide)) htop.le
  rw [ht] at hrest
  obtain ⟨head, rest, hhead, hr, hw⟩ := hrest (by decide)
  exact ⟨hl, u, head, rest, hhead, hr, hw⟩

end Speller
end NumberWords
