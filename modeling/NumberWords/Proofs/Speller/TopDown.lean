import NumberWords.Proofs.Language
import NumberWords.Proofs.Reading
import NumberWords.Proofs.Speller.Chunks
import NumberWords.Proofs.Speller.Levels
import NumberWords.Words

/-!
Reading from the top.

The walk goes through the units from the smallest on, but the text is that of a reading from the
top: the largest unit that goes into the number with its count, then the text of the rest
(`spell_top_down`).
-/

namespace NumberWords
namespace Speller

/-- The unit with the largest threshold that goes into a number. -/
structure Top (s : Speller) (n : Nat) (top : Rung) : Prop where
  unit : s.descriptor.units.toList[top.position]? = some top.unit
  step : s.scale.step? top.position = some top.step
  le : top.step.threshold ≤ n
  greatest : ∀ position step, s.scale.step? position = some step → step.threshold ≤ n →
    step.threshold ≤ top.step.threshold

/-- The words of a unit and its count at the head of a number: a compound or exceptional word, the
bare word, or the count and the form beside it. -/
def headWords (s : Speller) (f : Frame) (n : Nat) (top : Rung) : Except SpellFault String :=
  let count := n / top.step.threshold
  let tail := n % 100 != 0
  let word := top.unit.wordFor count tail
  let counted := (· ++ " " ++ word) <$> s.spell count (s.countFrame top.unit)
  match top.unit with
  | .plain _ => counted
  | .inflected u =>
    if u.compound then
      if listed u.compoundExceptions count
          && (!u.exceptionsNeedTail || (top.position == 0 && tail)) then .ok (u.ownWord count)
      else match s.lexiconWord? f (count * top.step.threshold) with
        | some w => .ok w
        | none => .error (.missingWord (count * top.step.threshold))
    else if listed u.bareCounts count then .ok word
    else counted

variable {s : Speller} {es : List Nat} {f : Frame} {n : Nat} {top : Rung} {low high : List Rung}

/-! ## The top rung -/

theorem exists_split {rs : List Rung} (h : ∃ r ∈ rs, r.step.threshold ≤ n) :
    ∃ low top high, rs = low ++ top :: high ∧ top.step.threshold ≤ n ∧
      ∀ r ∈ high, n < r.step.threshold := by
  obtain ⟨low, top, high, hrs, hle, hhigh⟩ := exists_split_last h
  exact ⟨low, top, high, hrs, hle, fun r hr => Nat.lt_of_not_le (hhigh r hr)⟩

namespace Scaled

theorem exists_rung_of_step? (h : s.Scaled es) {position : Nat} {step : Step}
    (hstep : s.scale.step? position = some step) : ∃ r ∈ s.rungs, r.step = step := by
  have hmem : some step ∈ s.scale.steps :=
    List.mem_of_getElem? (Option.join_eq_some_iff.1 hstep)
  have hpresent : step ∈ s.scale.present := List.mem_filterMap.2 ⟨_, hmem, rfl⟩
  rw [← h.map_step_rungs] at hpresent
  exact List.mem_map.1 hpresent

theorem below_top (h : s.Scaled es) (hrungs : s.rungs = low ++ top :: high) :
    ∀ r ∈ low, Step.Below r.step top.step := by
  have hpairs := h.pairwise_rungs
  rw [hrungs] at hpairs
  exact fun r hr => (List.pairwise_append.1 hpairs).2.2 r hr top List.mem_cons_self

theorem top_of_split (h : s.Scaled es) (hrungs : s.rungs = low ++ top :: high)
    (hle : top.step.threshold ≤ n) (hhigh : ∀ r ∈ high, n < r.step.threshold) : s.Top n top := by
  have hmem : top ∈ s.rungs := hrungs ▸ List.mem_append_right low List.mem_cons_self
  obtain ⟨hunit, hstep⟩ := h.mem_rungs_iff.1 hmem
  refine { unit := hunit, step := hstep, le := hle, greatest := fun position step hs hsn => ?_ }
  obtain ⟨r, hr, rfl⟩ := h.exists_rung_of_step? hs
  have hpos := h.threshold_pos hr
  rw [hrungs] at hr
  rcases List.mem_append.1 hr with hlow | hrest
  · exact Nat.le_of_lt ((h.below_top hrungs r hlow).threshold_lt hpos (h.threshold_pos hmem))
  · rcases List.mem_cons.1 hrest with rfl | hr
    · exact Nat.le_refl _
    · exact absurd hsn (Nat.not_le.2 (hhigh r hr))

/-- With a first threshold of one hundred, all thresholds are whole hundreds. -/
theorem hundred_dvd (h : s.Scaled es) (hfirst : (s.scale.step? 0).map (·.threshold) = some 100)
    {r : Rung} (hr : r ∈ s.rungs) : 100 ∣ r.step.threshold := by
  obtain ⟨first, hstep, ht⟩ := Option.map_eq_some_iff.1 hfirst
  have hhead := h.head?_present
  rw [hstep, ← h.map_step_rungs, List.head?_map] at hhead
  obtain ⟨r₀, hr₀, rfl⟩ := Option.map_eq_some_iff.1 hhead
  obtain ⟨rs, hrs⟩ := List.head?_eq_some_iff.1 hr₀
  have hpairs := h.pairwise_rungs
  rw [hrs] at hr hpairs
  rcases List.mem_cons.1 hr with rfl | hmem
  · exact ⟨1, ht⟩
  · obtain ⟨d, -, -, hdvd⟩ := (List.pairwise_cons.1 hpairs).1 r hmem
    rw [ht] at hdvd
    exact Nat.dvd_trans (Nat.dvd_mul_right 100 d) hdvd

theorem within_top (h : s.Scaled es) (hrungs : s.rungs = low ++ top :: high)
    (hhigh : ∀ r ∈ high, n < r.step.threshold)
    (hn : ∀ last, s.scale.steps.getLast? = some (some last) →
      n < last.threshold * ScaleTable.lastDivisor) : top.step.within n = n := by
  cases high with
  | nil =>
    have hlast : s.scale.present.getLast? = some top.step := by
      rw [← h.map_step_rungs, hrungs, List.map_append, List.map_singleton,
        List.getLast?_concat]
    rw [h.steps] at hn
    rw [ScaleTable.present, h.steps] at hlast
    exact ScaleTable.within_getLast_present h.ascending hlast hn
  | cons next high =>
    have hchain := h.isChain_rungs
    rw [hrungs] at hchain
    have hleads := (List.isChain_cons_cons.1 (List.isChain_append.1 hchain).2.1).1
    rw [hleads.within_eq, Nat.mod_eq_of_lt (hhigh next List.mem_cons_self)]

end Scaled

/-! ## Texts -/

def chunksText (s : Speller) (cs : List Chunk) : String :=
  s.descriptor.joinChunks (cs.map (Chunk.text s.descriptor))

theorem spell_eq_chunks (h : s.Scaled es) (hjoin : s.descriptor.joinsTail = false) (hn : 100 ≤ n)
    (hw : s.wholeWord? f n = none) :
    s.spell n f = s.chunksText <$> s.chunks (s.read deepestLevel) f n := by
  rw [spell, read, readStep_of_le hw hn, readSum_of_not_joinsTail h hjoin]
  cases s.chunks (s.read deepestLevel) f n with
  | error fault => rfl
  | ok cs =>
    show Except.ok (s.descriptor.joinChunks (Chunk.texts s.descriptor cs)) = _
    rw [Chunk.texts_eq_map]
    rfl

theorem spell_eq_read (h : s.Scaled es) (hn : n < Numeral.magnitudeBound) :
    s.spell n f = Reading.text s.descriptor <$> s.read deepestLevel n f := by
  have hmore : s.read (deepestLevel + 1) n f = s.read 39 n f := read_magnitude h hn (by decide)
  have hdeepest : s.read deepestLevel n f = s.read 39 n f := read_magnitude h hn (by decide)
  rw [spell, hmore, hdeepest]

/-- The chunk of the top rung says the head. -/
theorem text_rungChunk (h : s.Scaled es) (hn : n < Numeral.magnitudeBound)
    (hcount : top.step.count n = n / top.step.threshold) :
    Chunk.text s.descriptor <$> s.rungChunk (s.read deepestLevel) f n top
      = s.headWords f n top := by
  have hlt : n / top.step.threshold < Numeral.magnitudeBound :=
    Nat.lt_of_le_of_lt (Nat.div_le_self _ _) hn
  simp only [rungChunk, unitChunk, headWords, InflectedUnit.exceptsCompound, hcount,
    spell_eq_read h hlt]
  cases top.unit with
  | plain w =>
    cases s.read deepestLevel (n / top.step.threshold) (s.countFrame (.plain w)) with
    | error fault => rfl
    | ok r => rfl
  | inflected u =>
    dsimp only
    by_cases hcompound : u.compound = true
    · rw [if_pos hcompound, if_pos hcompound]
      by_cases hexcept : (listed u.compoundExceptions (n / top.step.threshold)
          && (!u.exceptionsNeedTail || (top.position == 0 && n % 100 != 0))) = true
      · rw [if_pos hexcept, if_pos hexcept]
        rfl
      · rw [if_neg hexcept, if_neg hexcept]
        cases s.lexiconWord? f (n / top.step.threshold * top.step.threshold) with
        | none => rfl
        | some w => rfl
    · rw [if_neg hcompound, if_neg hcompound]
      by_cases hbare : listed u.bareCounts (n / top.step.threshold) = true
      · rw [if_pos hbare, if_pos hbare]
        rfl
      · rw [if_neg hbare, if_neg hbare]
        cases s.read deepestLevel (n / top.step.threshold) (s.countFrame (.inflected u)) with
        | error fault => rfl
        | ok r => rfl

theorem chunksText_append {cs : List Chunk} (hcs : cs ≠ []) (c : Chunk) :
    s.chunksText (cs ++ [c])
      = c.text s.descriptor ++ " "
        ++ (s.descriptor.chunkSeparator.getD "" ++ s.chunksText cs) := by
  unfold chunksText
  rw [List.map_append, List.map_singleton]
  exact s.descriptor.joinChunks_append (fun hnil => hcs (List.map_eq_nil_iff.1 hnil)) _

/-! ## The head and the rest -/

theorem exists_top (h : s.Scaled es) (hfirst : (s.scale.step? 0).map (·.threshold) = some 100)
    (hn : 100 ≤ n) : ∃ low top high, s.rungs = low ++ top :: high ∧ s.Top n top ∧
      ∀ r ∈ high, n < r.step.threshold := by
  obtain ⟨first, hstep, ht⟩ := Option.map_eq_some_iff.1 hfirst
  obtain ⟨r, hr, rfl⟩ := h.exists_rung_of_step? hstep
  obtain ⟨low, top, high, hrungs, hle, hhigh⟩ := exists_split ⟨r, hr, ht ▸ hn⟩
  exact ⟨low, top, high, hrungs, h.top_of_split hrungs hle hhigh, hhigh⟩

theorem exists_top_chunks (h : s.Scaled es)
    (hfirst : (s.scale.step? 0).map (·.threshold) = some 100) (hn : 100 ≤ n)
    (hlast : ∀ last, s.scale.steps.getLast? = some (some last) →
      n < last.threshold * ScaleTable.lastDivisor) :
    ∃ top ∈ s.rungs, s.Top n top ∧ top.step.count n = n / top.step.threshold ∧
      ∀ sub f, s.chunks sub f n = (do
        let lower ← s.chunks sub f (n % top.step.threshold)
        let c ← s.rungChunk sub f n top
        .ok (lower ++ [c])) := by
  obtain ⟨low, top, high, hrungs, htop, hhigh⟩ := exists_top h hfirst hn
  have hmem : top ∈ s.rungs := hrungs ▸ List.mem_append_right low List.mem_cons_self
  have hpos := h.threshold_pos hmem
  have hcount := Step.count_eq_div hpos (h.within_top hrungs hhigh hlast)
  have hne : top.step.count n ≠ 0 := by
    rw [hcount]
    exact Nat.ne_of_gt (Nat.div_pos htop.le hpos)
  exact ⟨top, hmem, htop, hcount, fun sub f => chunks_eq_append hrungs (h.below_top hrungs) hhigh
    hpos (h.hundred_dvd hfirst hmem) hne⟩

/-- Nothing is said only of zero. -/
theorem chunks_ne_nil (h : s.Scaled es)
    (hfirst : (s.scale.step? 0).map (·.threshold) = some 100) (hpos : 0 < n)
    (hlast : ∀ last, s.scale.steps.getLast? = some (some last) →
      n < last.threshold * ScaleTable.lastDivisor) {sub : Nested} :
    s.chunks sub f n ≠ .ok [] := by
  intro hnil
  obtain ⟨first, hstep, -⟩ := Option.map_eq_some_iff.1 hfirst
  obtain ⟨last, hpresent⟩ := h.exists_last hstep
  have hzero := (h.within_eq_zero_iff hfirst hpresent).2 (chunks_eq_nil_iff.1 hnil)
  rw [h.within_last hpresent hlast] at hzero
  omega

/-- A number that is said as its chunks is, after a head, said as the rest of that number. -/
theorem chunksText_head_rest {x : Except SpellFault (List Chunk)} {y : Except SpellFault Chunk}
    (hx : x ≠ .ok []) :
    s.chunksText <$> (do
      let lower ← x
      let c ← y
      .ok (lower ++ [c])) = (do
      let rest ← s.chunksText <$> x
      let head ← Chunk.text s.descriptor <$> y
      .ok (head ++ " " ++ (s.descriptor.chunkSeparator.getD "" ++ rest))) := by
  cases x with
  | error fault => rfl
  | ok lower =>
    cases y with
    | error fault => rfl
    | ok c =>
      have hlower : lower ≠ [] := fun hnil => hx (hnil ▸ rfl)
      show Except.ok (s.chunksText (lower ++ [c])) = _
      rw [chunksText_append hlower]
      rfl

/-- Below one hundred the only chunk is the tail. -/
theorem chunks_eq_tail (h : s.Scaled es)
    (hfirst : (s.scale.step? 0).map (·.threshold) = some 100) (hpos : 0 < n) (hn : n < 100)
    {sub : Nested} :
    s.chunks sub f n = (fun r => [.tail (s.separatesTail f) r]) <$> sub n f := by
  have hcounts : ∀ r ∈ s.rungs, r.step.count n = 0 := by
    intro r hr
    have hle := Nat.le_of_dvd (h.threshold_pos hr) (h.hundred_dvd hfirst hr)
    exact Step.count_of_lt (Nat.lt_of_lt_of_le hn hle)
  have hmod : n % 100 = n := Nat.mod_eq_of_lt hn
  rw [chunks, chunksOver_eq_nil hcounts, tailChunks_of_ne_zero (by omega), hmod]
  cases sub n f with
  | error fault => rfl
  | ok r => rfl

/-- The part below one hundred as the only chunk of a rest. -/
theorem chunks_of_lt_hundred (h : s.Scaled es)
    (hfirst : (s.scale.step? 0).map (·.threshold) = some 100) (hpos : 0 < n) (hn : n < 100) :
    s.chunksText <$> s.chunks (s.read deepestLevel) f n =
      ((if s.separatesTail f then s.descriptor.tailSeparator else "") ++ ·) <$> s.spell n f := by
  rw [chunks_eq_tail h hfirst hpos hn, spell_eq_read h (Nat.lt_trans hn (by decide))]
  cases s.read deepestLevel n f with
  | error fault => rfl
  | ok r =>
    show Except.ok (Chunk.text s.descriptor (.tail (s.separatesTail f) r)) = _
    rw [Chunk.text]
    cases s.separatesTail f with
    | false => exact congrArg Except.ok String.empty_append.symm
    | true => rfl

theorem chunks_zero (h : s.Scaled es) {sub : Nested} : s.chunks sub f 0 = .ok [] :=
  chunks_eq_nil_iff.2 ⟨rfl, fun _ hr => Step.count_of_lt (h.threshold_pos hr)⟩

theorem rungChunk_of_isCompoundAt {sub : Nested} {w : String} {count : Nat}
    (hunit : top.unit.isCompoundAt top.position count = true) (htail : n % 100 = 0)
    (hcount : top.step.count n = count)
    (hw : s.lexiconWord? f (count * top.step.threshold) = some w) :
    s.rungChunk sub f n top = .ok (.whole top.position count w) := by
  unfold rungChunk unitChunk
  rw [hcount, htail]
  cases hu : top.unit with
  | plain w' =>
    rw [hu] at hunit
    cases hunit
  | inflected u =>
    rw [hu] at hunit
    obtain ⟨hcompound, hexcept⟩ := Bool.and_eq_true_iff.1 hunit
    have hexcept : ¬ u.exceptsCompound top.position count (0 != 0) = true := by simpa using hexcept
    simp only [if_pos hcompound, if_neg hexcept, hw]

/-- In a built-in language a number from one hundred on with a word of its own is an irregular
hundred, and its only chunk is that word. -/
theorem chunks_of_wholeWord {l : Language} (hs : l.descriptor.speller = .ok s) (hn : 100 ≤ n)
    {w : String} (hw : s.wholeWord? f n = some w) (sub : Nested) :
    s.chunks sub f n = .ok [.whole 0 (n / 100) w] := by
  obtain ⟨hd, es, h⟩ := scaled_of_speller hs
  obtain ⟨lexicon, hlexicon, e, he, hkey, -⟩ := has_of_wholeWord? hw
  rw [hd] at hlexicon
  obtain ⟨hlt, hmod, hunit⟩ := l.hundreds lexicon hlexicon e he (hkey ▸ hn)
  rw [hkey] at hlt hmod hunit
  have hfirst := Language.threshold_first hs
  have hlast := h.lt_last_of_lt (Nat.lt_trans hlt (by decide))
  obtain ⟨top, hmem, htop, hcount, hchunks⟩ := exists_top_chunks h hfirst hn hlast
  obtain ⟨hposition, hthreshold⟩ :=
    Language.rung_below_thousand hs top hmem (Nat.lt_of_le_of_lt htop.le hlt)
  have hlex : s.lexiconWord? f n = some w := by
    rcases exception_or_lexiconWord? hw with hexc | hlex
    · rw [hd, l.exceptions_descriptor] at hexc
      cases hexc
    · exact hlex
  have hhundreds : n / 100 * 100 = n := Nat.div_mul_cancel (Nat.dvd_of_mod_eq_zero hmod)
  have hrung : s.rungChunk sub f n top = .ok (.whole 0 (n / 100) w) := by
    rw [← hposition]
    refine rungChunk_of_isCompoundAt ?_ hmod (hthreshold ▸ hcount) ?_
    · have htopunit := htop.unit
      rw [hposition, hd] at htopunit
      rw [htopunit] at hunit
      rw [hposition]
      exact hunit
    · rw [hthreshold, hhundreds, hlex]
  rw [hchunks, hthreshold, hmod, chunks_zero h, hrung]
  rfl

/-- In a built-in language an irregular hundred is said as it would be as a sum. -/
theorem spell_eq_chunks_of_builtIn {l : Language} (hs : l.descriptor.speller = .ok s)
    (hjoin : s.descriptor.joinsTail = false) (hn : 100 ≤ n) :
    s.spell n f = s.chunksText <$> s.chunks (s.read deepestLevel) f n := by
  obtain ⟨-, es, h⟩ := scaled_of_speller hs
  cases hw : s.wholeWord? f n with
  | none => exact spell_eq_chunks h hjoin hn hw
  | some w =>
    rw [spell, read, readStep_of_word hw, chunks_of_wholeWord hs hn hw]
    rfl

/-! ## The law -/

/-- The text of a number at or above one hundred is the head of its top unit and the text of the
rest.  Before the rest stands the chunk separator, and before a rest below one hundred the tail
separator too. -/
theorem spell_top_down {o : Options} {s : Speller}
    (hs : o.selection.descriptor.speller = .ok s) (hjoin : s.descriptor.joinsTail = false)
    (hfirst : (s.scale.step? 0).map (·.threshold) = some 100) {n : Nat} (hn : 100 ≤ n)
    (hbound : n < Numeral.magnitudeBound) (hw : s.wholeWord? o.toFrame n = none)
    (hlast : ∀ last, s.scale.steps.getLast? = some (some last) →
      n < last.threshold * ScaleTable.lastDivisor) :
    ∃ top, s.Top n top ∧
      (n % top.step.threshold = 0 →
        o.spell n = (s.headWords o.toFrame n top).mapError .spelling) ∧
      (0 < n % top.step.threshold → n % top.step.threshold < 100 →
        o.spell n = (do
          let rest ← o.spell (n % top.step.threshold)
          let head ← (s.headWords o.toFrame n top).mapError .spelling
          let separator :=
            if o.noAnd && !s.descriptor.keepsAnd then "" else s.descriptor.tailSeparator
          .ok (head ++ " " ++ (s.descriptor.chunkSeparator.getD "" ++ (separator ++ rest))))) ∧
      (100 ≤ n % top.step.threshold →
        s.wholeWord? o.toFrame (n % top.step.threshold) = none
          ∨ (∃ l, o.selection = .builtIn l) →
        o.spell n = (do
          let rest ← o.spell (n % top.step.threshold)
          let head ← (s.headWords o.toFrame n top).mapError .spelling
          .ok (head ++ " " ++ (s.descriptor.chunkSeparator.getD "" ++ rest)))) := by
  obtain ⟨-, es, h⟩ := scaled_of_speller hs
  obtain ⟨top, -, htop, hcount, hchunks⟩ := exists_top_chunks h hfirst hn hlast
  have hspell := spell_eq_chunks h hjoin hn hw
  have hhead := text_rungChunk (f := o.toFrame) h hbound hcount
  rw [hchunks] at hspell
  have hrest : 0 < n % top.step.threshold →
      s.chunks (s.read deepestLevel) o.toFrame (n % top.step.threshold) ≠ .ok [] := fun hpos =>
    chunks_ne_nil h hfirst hpos fun last hl => Nat.lt_of_le_of_lt (Nat.mod_le _ _) (hlast last hl)
  refine ⟨top, htop, fun hzero => ?_, fun hpos hlt => ?_, fun hle hwhole => ?_⟩
  · rw [o.spell_eq hs, hspell, hzero, chunks_zero h, ← hhead]
    cases s.rungChunk (s.read deepestLevel) o.toFrame n top with
    | error fault => rfl
    | ok c => rfl
  · rw [chunksText_head_rest (hrest hpos), chunks_of_lt_hundred h hfirst hpos hlt, hhead] at hspell
    rw [o.spell_eq hs, o.spell_eq hs, hspell, separatesTail]
    cases s.spell (n % top.step.threshold) o.toFrame with
    | error fault => rfl
    | ok rest =>
      cases s.headWords o.toFrame n top with
      | error fault => rfl
      | ok head => cases o.noAnd <;> cases s.descriptor.keepsAnd <;> rfl
  · have hlower : s.spell (n % top.step.threshold) o.toFrame = s.chunksText <$>
        s.chunks (s.read deepestLevel) o.toFrame (n % top.step.threshold) := by
      rcases hwhole with hnone | ⟨l, hl⟩
      · exact spell_eq_chunks h hjoin hle hnone
      · rw [hl] at hs
        exact spell_eq_chunks_of_builtIn hs hjoin hle
    rw [chunksText_head_rest (hrest (by omega)), ← hlower, hhead] at hspell
    rw [o.spell_eq hs, o.spell_eq hs, hspell]
    cases s.spell (n % top.step.threshold) o.toFrame with
    | error fault => rfl
    | ok rest =>
      cases s.headWords o.toFrame n top with
      | error fault => rfl
      | ok head => rfl

/-- In Spanish, two thousand three hundred is read as two thousand and the irregular three
hundred. -/
theorem spanish_reads_thousands_first :
    ∃ s, Descriptor.spanish.speller = .ok s ∧ ∃ top, s.Top 2300 top ∧
      ({ selection := .builtIn .spanish } : Options).spell 2300 = (do
        let rest ← ({ selection := .builtIn .spanish } : Options).spell 300
        let head ← (s.headWords {} 2300 top).mapError .spelling
        .ok (head ++ " " ++ ("" ++ rest))) := by
  obtain ⟨s, hs⟩ := Descriptor.exists_speller Language.spanish.validate_descriptor
  obtain ⟨-, es, h⟩ := scaled_of_speller hs
  have hlast := h.lt_last_of_lt (n := 2300) (by decide)
  have htop : ∀ r ∈ s.rungs, 1000 ≤ r.step.threshold → r.step.threshold ≤ 2300 →
      r.step.threshold = 1000 := by
    cases hs
    decide
  have hthousand : s.scale.step? 1 = some { threshold := 1000, divisor := some 1000 } := by
    cases hs
    rfl
  have hjoin : s.descriptor.joinsTail = false := by
    cases hs
    rfl
  have hwhole : s.wholeWord? {} 2300 = none := by
    cases hs
    decide
  obtain ⟨top, ht, -, -, hrest⟩ := spell_top_down (o := { selection := .builtIn .spanish }) hs hjoin
    (Language.threshold_first hs) (by decide) (by decide) hwhole hlast
  have hmem := h.mem_rungs_iff.2 ⟨ht.unit, ht.step⟩
  have ht1000 := htop top hmem (ht.greatest 1 _ hthousand (by decide)) ht.le
  rw [ht1000] at hrest
  have hsep : s.descriptor.chunkSeparator.getD "" = "" := by
    cases hs
    rfl
  rw [hsep] at hrest
  exact ⟨s, hs, top, ht, hrest (by decide) (.inr ⟨.spanish, rfl⟩)⟩

end Speller
end NumberWords
