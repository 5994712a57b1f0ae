import NumberWords.Proofs.Speller.Conjunction

/-!
Where the bare conjunction is put in.

The walk decides on the conjunction by a remainder, but the remainder only tells whether a chunk
below the most significant one took nothing from the number.  Such a chunk is the tail, or that of a
unit which stands alone (`uncounted_ne_zero_iff`).  So the conjunction has a rule of its own, in
terms of how the chunks are written (`read_splices`).
-/

namespace NumberWords
namespace Speller

open Fallible

/-- Something below the most significant unit of a number was not said with a count beside it: its
tail, or a unit that stands alone. -/
def Trails (s : Speller) (n : Nat) : Prop :=
  n % 100 ≠ 0 ∨ ∃ lower ∈ s.rungs, ∃ top ∈ s.rungs,
    lower.step.threshold < top.step.threshold ∧ top.step.count n ≠ 0 ∧
    lower.step.count n ≠ 0 ∧ lower.unit.standsAlone (lower.step.count n) = true

/-- A conjunction belongs after the lowest of these chunks. -/
structure Splices (s : Speller) (n : Nat) (cs : List Chunk) : Prop where
  joinsTail : s.descriptor.joinsTail = true
  counts : ∃ r ∈ s.rungs, r.step.count n ≠ 0
  separate : ∀ lowest, cs.head? = some lowest →
    ¬ s.descriptor.tailSeparator.toList <+: (lowest.text s.descriptor).toList
  trails : s.Trails n

variable {s : Speller} {es : List Nat} {sub : Nested} {f : Frame} {n : Nat}
variable {cs lower lowest : List Chunk} {low high : List Rung} {top : Rung}

/-! ## Chunks that take nothing from the number -/

theorem exists_uncounted_tail (hlowest : s.tailChunks sub n f = .ok lowest) :
    (∃ c ∈ lowest, c.isCounted = false) ↔ n % 100 ≠ 0 := by
  rcases tailChunks_eq_ok hlowest with ⟨h0, rfl⟩ | ⟨h0, r, -, rfl⟩
  · simp [h0]
  · simp [h0, Chunk.isCounted]

theorem exists_uncounted_unit (hlower : s.chunksOver sub f n low = .ok lower) :
    (∃ c ∈ lower, c.isCounted = false) ↔
      ∃ r ∈ low, r.step.count n ≠ 0 ∧ r.unit.standsAlone (r.step.count n) = true := by
  constructor
  · rintro ⟨c, hc, huncounted⟩
    obtain ⟨r, hr, hcount, hchunk⟩ := exists_rung_of_mem hlower hc
    rw [isCounted_of_unitChunk hchunk, Bool.not_eq_false'] at huncounted
    exact ⟨r, hr, hcount, huncounted⟩
  · rintro ⟨r, hr, hcount, halone⟩
    obtain ⟨c, hc, hchunk⟩ := exists_mem_of_rung hlower hr hcount
    refine ⟨c, hc, ?_⟩
    rw [isCounted_of_unitChunk hchunk, halone]
    rfl

theorem lower_or_eq_of_count (hrungs : s.rungs = low ++ top :: high)
    (hhigh : ∀ r ∈ high, r.step.count n = 0) {r : Rung} (hr : r ∈ s.rungs)
    (hcount : r.step.count n ≠ 0) : r ∈ low ∨ r = top := by
  rw [hrungs, List.mem_append, List.mem_cons] at hr
  rcases hr with hlow | htop | hr
  · exact .inl hlow
  · exact .inr htop
  · exact absurd (hhigh r hr) hcount

/-- What trails stands below the most significant unit with a count. -/
theorem trails_iff (h : s.Scaled es) (hrungs : s.rungs = low ++ top :: high)
    (htop : top.step.count n ≠ 0) (hhigh : ∀ r ∈ high, r.step.count n = 0) :
    s.Trails n ↔ n % 100 ≠ 0 ∨
      ∃ r ∈ low, r.step.count n ≠ 0 ∧ r.unit.standsAlone (r.step.count n) = true := by
  have hmem : top ∈ s.rungs := hrungs ▸ List.mem_append_right low List.mem_cons_self
  have hbelow : ∀ r ∈ low, r.step.threshold < top.step.threshold := by
    intro r hr
    have hr' : r ∈ s.rungs := hrungs ▸ List.mem_append_left _ hr
    exact (h.below_top hrungs r hr).threshold_lt (h.threshold_pos hr') (h.threshold_pos hmem)
  refine or_congr_right ⟨?_, ?_⟩
  · rintro ⟨r, hr, r', hr', hlt, hcount', hcount, halone⟩
    rcases lower_or_eq_of_count hrungs hhigh hr hcount with hlow | rfl
    · exact ⟨r, hlow, hcount, halone⟩
    · rcases lower_or_eq_of_count hrungs hhigh hr' hcount' with hlow' | rfl
      · have hgt := hbelow r' hlow'
        omega
      · omega
  · rintro ⟨r, hr, hcount, halone⟩
    have hr' : r ∈ s.rungs := hrungs ▸ List.mem_append_left _ hr
    exact ⟨r, hr', top, hmem, hbelow r hr, htop, hcount, halone⟩

theorem uncounted_concat_ne_zero_iff (c : Chunk) :
    uncounted (lower ++ [c]) ≠ 0 ↔ ∃ c ∈ lower, c.isCounted = false := by
  rw [uncounted_concat, ← Nat.pos_iff_ne_zero, List.countP_pos_iff]
  simp

/-- Above the most significant unit with a count there are no chunks. -/
theorem exists_chunks_below (htop : top.step.count n ≠ 0) (hhigh : ∀ r ∈ high, r.step.count n = 0)
    {higher : List Chunk} (h : s.chunksOver sub f n (low ++ top :: high) = .ok higher) :
    ∃ lower c, s.chunksOver sub f n low = .ok lower ∧ higher = lower ++ [c] := by
  rw [chunksOver_append, chunksOver_cons htop, chunksOver_eq_nil hhigh] at h
  obtain ⟨lower, hlower, h⟩ := bind_eq_ok.1 h
  obtain ⟨upper, hupper, h⟩ := bind_eq_ok.1 h
  obtain ⟨c, -, hupper⟩ := bind_eq_ok.1 hupper
  cases hupper
  exact ⟨lower, c, hlower, (Except.ok.inj h).symm⟩

/-- A chunk below the most significant one takes nothing from the number exactly when there is such
a unit and something trails. -/
theorem uncounted_ne_zero_iff (h : s.Scaled es) (hcs : s.chunks sub f n = .ok cs) :
    uncounted cs ≠ 0 ↔ (∃ r ∈ s.rungs, r.step.count n ≠ 0) ∧ s.Trails n := by
  obtain ⟨lowest, higher, hlowest, hhigher, rfl⟩ := chunks_eq_ok hcs
  by_cases hcounts : ∃ r ∈ s.rungs, r.step.count n ≠ 0
  · obtain ⟨low, top, high, hrungs, htop, hhigh⟩ := exists_split_last hcounts
    have hzero : ∀ r ∈ high, r.step.count n = 0 := fun r hr => Classical.not_not.1 (hhigh r hr)
    obtain ⟨lower, c, hlower, rfl⟩ := exists_chunks_below htop hzero (hrungs ▸ hhigher)
    rw [← List.append_assoc, uncounted_concat_ne_zero_iff, trails_iff h hrungs htop hzero,
      ← exists_uncounted_tail hlowest, ← exists_uncounted_unit hlower, and_iff_right hcounts]
    simp only [List.mem_append, or_and_right, exists_or]
  · -- Without a count the only chunk is the tail, which is then the most significant one.
    have hzero : ∀ r ∈ s.rungs, r.step.count n = 0 := fun r hr =>
      Classical.not_not.1 fun hcount => hcounts ⟨r, hr, hcount⟩
    rw [chunksOver_eq_nil hzero] at hhigher
    cases hhigher
    have htail : uncounted lowest = 0 := by
      rcases tailChunks_eq_ok hlowest with ⟨-, rfl⟩ | ⟨-, r, -, rfl⟩
      · rfl
      · rfl
    rw [List.append_nil]
    exact iff_of_false (fun hne => hne htail) fun hcount => hcounts hcount.1

/-! ## The conjunction -/

theorem conjoin_of_splices (h : s.Scaled es) (hcs : s.chunks sub f n = .ok cs)
    (hs : s.Splices n cs) :
    ∃ lowest higher, higher ≠ [] ∧ cs = lowest :: higher ∧
      s.conjoin (uncounted cs) cs
        = lowest :: .conjunction (Text.trim s.descriptor.tailSeparator) :: higher := by
  have hne := (uncounted_ne_zero_iff h hcs).2 ⟨hs.counts, hs.trails⟩
  cases cs with
  | nil => exact absurd rfl hne
  | cons lowest higher =>
    refine ⟨lowest, higher, ?_, rfl, ?_⟩
    · rintro rfl
      exact hne rfl
    · have hprefix := hs.separate lowest rfl
      rw [← List.isPrefixOf_iff_prefix, Bool.not_eq_true] at hprefix
      simp [conjoin, hs.joinsTail, hne, hprefix]

theorem conjoin_of_not_splices (h : s.Scaled es) (hcs : s.chunks sub f n = .ok cs)
    (hs : ¬ s.Splices n cs) : s.conjoin (uncounted cs) cs = cs := by
  cases cs with
  | nil => rfl
  | cons lowest higher =>
    simp only [conjoin]
    split
    · next hguard =>
      exfalso
      simp only [Bool.and_eq_true, bne_iff_ne, Bool.not_eq_true'] at hguard
      obtain ⟨⟨hjoins, hne⟩, hprefix⟩ := hguard
      obtain ⟨hcounts, htrails⟩ := (uncounted_ne_zero_iff h hcs).1 hne
      refine hs { joinsTail := hjoins, counts := hcounts, separate := ?_, trails := htrails }
      rintro _ ⟨⟩
      rw [← List.isPrefixOf_iff_prefix, hprefix]
      decide
    · rfl

theorem ne_conjunction_of_mem_chunks (hcs : s.chunks sub f n = .ok cs) {c : Chunk} (hc : c ∈ cs)
    (w : String) : c ≠ .conjunction w := by
  obtain ⟨lowest, higher, hlowest, hhigher, rfl⟩ := chunks_eq_ok hcs
  rcases List.mem_append.1 hc with hmem | hmem
  · rcases tailChunks_eq_ok hlowest with ⟨-, rfl⟩ | ⟨-, phrase, -, rfl⟩
    · cases hmem
    · obtain rfl := List.mem_singleton.1 hmem
      nofun
  · obtain ⟨r, -, -, hchunk⟩ := exists_rung_of_mem hhigher hmem
    rcases unitChunk_eq_ok hchunk with ⟨phrase, -, rfl⟩ | ⟨w', rfl, -⟩
    · nofun
    · nofun

theorem head?_chunks (hcs : s.chunks sub f n = .ok cs) (h0 : n % 100 ≠ 0) :
    ∃ phrase, sub (n % 100) f = .ok phrase ∧
      cs.head? = some (.tail (s.separatesTail f) phrase) := by
  obtain ⟨lowest, higher, hlowest, -, rfl⟩ := chunks_eq_ok hcs
  rcases tailChunks_eq_ok hlowest with ⟨hzero, -⟩ | ⟨-, phrase, hphrase, rfl⟩
  · exact absurd hzero h0
  · exact ⟨phrase, hphrase, rfl⟩

theorem text_sum_cons (d : Descriptor) (c : Chunk) {cs : List Chunk} (hne : cs ≠ []) :
    (Reading.sum (c :: cs)).text d
      = (Reading.sum cs).text d ++ " " ++ d.chunkSeparator.getD "" ++ c.text d := by
  have htexts : Chunk.texts d cs ≠ [] := by
    rw [Chunk.texts_eq_map]
    exact mt List.map_eq_nil_iff.1 hne
  exact d.joinChunks_cons (c.text d) htexts

/-- With a smallest threshold of one hundred, the trimmed tail separator is put in once, directly
after the lowest chunk, exactly when the rule for it holds.  Other chunks stand above it then, so it
is neither the first nor the last word. -/
theorem read_splices {d : Descriptor} (hd : d.validate = .ok ()) :
    ∃ s, d.speller = .ok s ∧ ((s.scale.step? 0).map (·.threshold) = some 100 →
      ∀ levels f n r, 100 ≤ n → s.wholeWord? f n = none → s.read (levels + 1) n f = .ok r →
        ∃ cs, s.chunks (s.read levels) f n = .ok cs ∧
          (∀ c ∈ cs, ∀ w, c ≠ .conjunction w) ∧
          (n % 100 ≠ 0 → ∃ phrase, s.read levels (n % 100) f = .ok phrase ∧
            cs.head? = some (.tail (s.separatesTail f) phrase)) ∧
          ((s.Splices n cs ∧ ∃ lowest higher, higher ≠ [] ∧ cs = lowest :: higher ∧
              r = .sum (lowest :: .conjunction (Text.trim d.tailSeparator) :: higher) ∧
              r.text d = (Reading.sum higher).text d
                ++ " " ++ d.chunkSeparator.getD "" ++ Text.trim d.tailSeparator
                ++ " " ++ d.chunkSeparator.getD "" ++ lowest.text d) ∨
            (¬ s.Splices n cs ∧ r = .sum cs))) := by
  obtain ⟨s, hs⟩ := d.exists_speller hd
  obtain ⟨rfl, es, h⟩ := scaled_of_speller hs
  refine ⟨s, hs, fun hfirst levels f n r hn hw hr => ?_⟩
  rw [read, readStep_of_le hw hn, readSum_eq_conjoin h hfirst] at hr
  obtain ⟨cs, hcs, rfl⟩ := map_eq_ok.1 hr
  refine ⟨cs, hcs, fun c hc w => ne_conjunction_of_mem_chunks hcs hc w, head?_chunks hcs, ?_⟩
  by_cases hsplices : s.Splices n cs
  · obtain ⟨lowest, higher, hne, rfl, hconjoin⟩ := conjoin_of_splices h hcs hsplices
    rw [hconjoin]
    refine .inl ⟨hsplices, lowest, higher, hne, rfl, rfl, ?_⟩
    rw [text_sum_cons _ _ (List.cons_ne_nil _ _), text_sum_cons _ _ hne]
    rfl
  · rw [conjoin_of_not_splices h hcs hsplices]
    exact .inr ⟨hsplices, rfl⟩

/-- In Portuguese both the thousand and the hundred of 1100 stand alone, so they are joined. -/
theorem portuguese_joins_thousand_and_hundred :
    Descriptor.europeanPortuguese.validate = .ok () ∧
      ∃ s, Descriptor.europeanPortuguese.speller = .ok s ∧
        (s.scale.step? 0).map (·.threshold) = some 100 ∧ s.wholeWord? {} 1100 = none ∧
        ∃ r cs, s.read (deepestLevel + 1) 1100 {} = .ok r ∧ s.Splices 1100 cs ∧
          r.text Descriptor.europeanPortuguese = "mil e cem" := by
  have hd : Descriptor.europeanPortuguese.validate = .ok () := by decide
  obtain ⟨s, hs, hsplices⟩ := read_splices hd
  have hfirst : (s.scale.step? 0).map (·.threshold) = some 100 := by
    cases hs
    rfl
  have hwhole : s.wholeWord? {} 1100 = none := by
    cases hs
    decide
  have hread : s.read (deepestLevel + 1) 1100 {}
      = .ok (.sum [.whole 0 1 "cem", .conjunction "e", .whole 1 1 "mil"]) := by
    cases hs
    rfl
  have hchunks : s.chunks (s.read deepestLevel) {} 1100
      = .ok [.whole 0 1 "cem", .whole 1 1 "mil"] := by
    cases hs
    rfl
  obtain ⟨cs, hcs, -, -, ⟨hrule, lowest, higher, -, rfl, -, htext⟩ | ⟨-, hsum⟩⟩ :=
    hsplices hfirst deepestLevel {} 1100 _ (by decide) hwhole hread
  · rw [hchunks] at hcs
    cases hcs
    exact ⟨hd, s, hs, hfirst, hwhole, _, _, hread, hrule, by rw [htext]; decide⟩
  · rw [hchunks] at hcs
    cases hcs
    cases hsum

end Speller
end NumberWords
