import Mathlib.Algebra.Group.Int.Defs
import Mathlib.Algebra.Group.Nat.Defs
import NumberWords.Proofs.Form
import NumberWords.Proofs.Reading
import NumberWords.Proofs.Speller.Faults

/-!
When the words of an input are empty.

A built-in language has no empty words, so only a sum without chunks has an empty text
(`spell_eq_empty_iff`).  A number has no chunks when the count of the last unit starts again at
it.
-/

namespace NumberWords

open Fallible

theorem InflectedUnit.form_ne_empty {u : InflectedUnit} (h : u.singular ≠ "") (f : Form) :
    u.form f ≠ "" := by
  unfold form
  cases hf : u.form? f with
  | none => exact h
  | some w =>
    rcases (form?_eq_some_iff.1 hf).2 with rfl | hne
    · cases hf
      exact h
    · exact hne

theorem InflectedUnit.ownWord_ne_empty {u : InflectedUnit} (h : u.singular ≠ "") (count : Nat) :
    u.ownWord count ≠ "" := by
  unfold ownWord
  by_cases hcount : 1 < count
  · rw [if_pos hcount]
    exact form_ne_empty h .plural
  · rw [if_neg hcount]
    exact h

theorem ScaleUnit.wordFor_ne_empty {unit : ScaleUnit} (h : unit.word ≠ "") (count : Nat)
    (tail : Bool) : unit.wordFor count tail ≠ "" := by
  cases unit with
  | plain w => exact h
  | inflected u => exact InflectedUnit.form_ne_empty h _

namespace Speller

variable {l : Language} {s : Speller} {f : Frame} {n : Nat}

/-- Only a sum without chunks has an empty text. -/
theorem text_conjoin_eq_empty {k : Nat} {cs : List Chunk}
    (h : ∀ c ∈ cs, c.text s.descriptor ≠ "") :
    (Reading.sum (s.conjoin k cs)).text s.descriptor = "" ↔ cs = [] := by
  constructor
  · intro hempty
    rw [Reading.text, Chunk.texts_eq_map] at hempty
    rcases s.conjoin_cases k cs with heq | ⟨lowest, higher, w, -, heq⟩
    · rw [heq] at hempty
      rcases Descriptor.joinChunks_eq_empty _ hempty with hnil | hone
      · exact List.map_eq_nil_iff.1 hnil
      · obtain ⟨c, rfl, hc⟩ := List.map_eq_singleton_iff.1 hone
        exact absurd hc (h c List.mem_cons_self)
    · rw [heq] at hempty
      rcases Descriptor.joinChunks_eq_empty _ hempty with hnil | hone
      · cases hnil
      · cases (List.cons.inj hone).2
  · rintro rfl
    rfl

section
variable (hs : l.descriptor.speller = .ok s)
include hs

theorem ne_empty_of_has {w : String} (h : s.descriptor.Has n w) : w ≠ "" := by
  obtain ⟨hd, -⟩ := scaled_of_speller hs
  obtain ⟨lexicon, hlexicon, e, he, -, rfl⟩ := h
  exact l.word_ne_empty lexicon (hd ▸ hlexicon) e he

theorem text_ne_empty_of_lt_hundred {levels : Nat} {r : Reading} (hn : n < 100)
    (hr : s.read levels n f = .ok r) : r.text s.descriptor ≠ "" := by
  obtain ⟨hd, -⟩ := scaled_of_speller hs
  induction levels generalizing n r with
  | zero => cases hr
  | succ levels ih =>
    rw [read] at hr
    cases hw : s.wholeWord? f n with
    | some w =>
      rw [readStep_of_word hw] at hr
      cases hr
      exact ne_empty_of_has hs (has_of_wholeWord? hw)
    | none =>
      rw [readStep_of_lt hw hn] at hr
      by_cases h0 : n % 10 = 0
      · obtain ⟨w, hten⟩ := Option.isSome_iff_exists.1 (l.ten_said (n / 10) (by omega))
        rw [Nat.div_mul_cancel (Nat.dvd_of_mod_eq_zero h0), ← hd] at hten
        exact absurd (base_empty_of_wholeWord? hw hten)
          (ne_empty_of_has hs (.of_word? List.mem_cons_self hten))
      · rw [readTens_of_ne_zero h0] at hr
        obtain ⟨unit, hunit, rfl⟩ := map_eq_ok.1 hr
        intro hempty
        exact ih (by omega) hunit (String.append_eq_empty_iff.1 hempty).2

theorem text_rungChunk_ne_empty {sub : Nested} {r : Rung} (hr : r ∈ s.rungs) {c : Chunk}
    (hc : s.rungChunk sub f n r = .ok c) : c.text s.descriptor ≠ "" := by
  obtain ⟨hd, es, h⟩ := scaled_of_speller hs
  have hunit := (h.mem_rungs_iff.1 hr).1
  rw [hd] at hunit
  have hword := l.unit_word_ne_empty r.unit (List.mem_of_getElem? hunit)
  rcases unitChunk_eq_ok hc with
    ⟨phrase, -, rfl⟩ | ⟨w, rfl, hform | ⟨u, hu, -, hown⟩ | hw⟩
  · intro hempty
    exact ScaleUnit.wordFor_ne_empty hword _ _ (String.append_eq_empty_iff.1 hempty).2
  · rw [Chunk.text, hform]
    exact ScaleUnit.wordFor_ne_empty hword _ _
  · rw [hu] at hword
    rw [Chunk.text, hown]
    exact InflectedUnit.ownWord_ne_empty hword _
  · exact ne_empty_of_has hs (has_of_lexiconWord? hw)

theorem text_ne_empty_of_mem_chunks {levels : Nat} {cs : List Chunk}
    (hcs : s.chunks (s.read levels) f n = .ok cs) {c : Chunk} (hc : c ∈ cs) :
    c.text s.descriptor ≠ "" := by
  obtain ⟨lowest, higher, hlowest, hhigher, rfl⟩ := chunks_eq_ok hcs
  rcases List.mem_append.1 hc with hmem | hmem
  · rcases tailChunks_eq_ok hlowest with ⟨-, rfl⟩ | ⟨-, r, hr, rfl⟩
    · cases hmem
    · obtain rfl := List.mem_singleton.1 hmem
      have htext := text_ne_empty_of_lt_hundred hs (Nat.mod_lt n (by decide)) hr
      rw [Chunk.text]
      split
      · exact fun hempty => htext (String.append_eq_empty_iff.1 hempty).2
      · exact htext
  · obtain ⟨r, hr, -, hchunk⟩ := exists_rung_of_mem hhigher hmem
    exact text_rungChunk_ne_empty hs hr hchunk

/-- The words of a number are empty exactly when it is read as a sum and nothing is counted. -/
theorem spell_eq_empty_iff :
    s.spell n f = .ok "" ↔ 100 ≤ n ∧ s.wholeWord? f n = none ∧ n % 100 = 0 ∧
      ∀ r ∈ s.rungs, r.step.count n = 0 := by
  obtain ⟨-, es, h⟩ := scaled_of_speller hs
  obtain ⟨k, hk⟩ := readSum_eq h (s.read deepestLevel) f n
  constructor
  · intro hspell
    obtain ⟨r, hr, htext⟩ := map_eq_ok.1 hspell
    have hn : 100 ≤ n := Nat.le_of_not_lt fun hlt => text_ne_empty_of_lt_hundred hs hlt hr htext
    rw [read] at hr
    cases hw : s.wholeWord? f n with
    | some w =>
      rw [readStep_of_word hw] at hr
      cases hr
      exact absurd htext (ne_empty_of_has hs (has_of_wholeWord? hw))
    | none =>
      rw [readStep_of_le hw hn, hk] at hr
      obtain ⟨cs, hcs, rfl⟩ := map_eq_ok.1 hr
      obtain rfl := (text_conjoin_eq_empty fun c => text_ne_empty_of_mem_chunks hs hcs).1 htext
      exact ⟨hn, rfl, chunks_eq_nil_iff.1 hcs⟩
  · rintro ⟨hn, hw, hnil⟩
    rw [spell, read, readStep_of_le hw hn, hk, chunks_eq_nil_iff.2 hnil]
    rfl

/-- A built-in language says nothing of the numbers at which the counts of its last unit start
again. -/
theorem spell_eq_empty_iff_period (hn : n < Numeral.magnitudeBound) :
    s.spell n f = .ok "" ↔ n ≠ 0 ∧ ∃ p, l.period? = some p ∧ p ∣ n := by
  obtain ⟨hd, es, h⟩ := scaled_of_speller hs
  have hfirst := Language.threshold_first hs
  obtain ⟨first, hstep, -⟩ := Option.map_eq_some_iff.1 hfirst
  obtain ⟨last, hlast⟩ := h.exists_last hstep
  have hwithin := Step.within_eq_zero_iff (s := last) hn
  rw [h.within_eq_zero_iff hfirst hlast, Language.period?_eq hs last hlast] at hwithin
  rw [spell_eq_empty_iff hs, hwithin]
  constructor
  · rintro ⟨hle, -, h0 | hp⟩
    · omega
    · exact ⟨by omega, hp⟩
  · rintro ⟨hne, p, hp, hdvd⟩
    have hle : 1000 ≤ n :=
      Nat.le_trans (l.thousand_le_period p hp) (Nat.le_of_dvd (Nat.pos_of_ne_zero hne) hdvd)
    exact ⟨by omega, Language.wholeWord?_eq_none hs f hle, .inr ⟨p, hp, hdvd⟩⟩

end

end Speller

/-! ## Inputs -/

theorem Binary64.magnitude_lt {x : Binary64} {n : Nat} (h : x.magnitude = .ok n) :
    n < Numeral.magnitudeBound := by
  cases x with
  | nan => cases h
  | infinite negative => cases h
  | finite negative m e =>
    simp only [magnitude] at h
    split at h
    · cases h
    · split at h
      · next hlt =>
        cases h
        exact hlt
      · cases h

theorem Input.magnitude_lt {input : Input}
    (hi : ∀ i, input = .integer i → i < (Numeral.magnitudeBound : Int)) {n : Nat}
    (h : input.magnitude = .ok n) : n < Numeral.magnitudeBound := by
  cases input with
  | integer i =>
    have hlt := hi i rfl
    simp only [magnitude] at h
    split at h
    · cases h
    · cases h
      omega
  | float x => exact Binary64.magnitude_lt h
  | text t =>
    simp only [magnitude] at h
    split at h
    · next hm =>
      cases h
      simpa using (Option.filter_eq_some_iff.1 hm).2
    · split at h
      · exact Binary64.magnitude_lt h
      · cases h

namespace Options

/-- A built-in language writes nothing for an input that is rejected, and for an accepted number at
which the counts of its last unit start again. -/
theorem write_eq_empty_iff (l : Language) (o : Options) (ho : o.selection = .builtIn l)
    (input : Input) (hi : ∀ i, input = .integer i → i < (Numeral.magnitudeBound : Int)) :
    o.write input = .ok "" ↔
      (∃ fault, input.magnitude = .error fault) ∨
        ∃ n p, input.magnitude = .ok n ∧ n ≠ 0 ∧ l.period? = some p ∧ p ∣ n := by
  unfold write
  cases hm : input.magnitude with
  | error fault => simp
  | ok n =>
    have hn := Input.magnitude_lt hi hm
    obtain ⟨s, hs⟩ := Descriptor.exists_speller l.validate_descriptor
    have hso : o.selection.descriptor.speller = .ok s := by
      rw [ho]
      exact hs
    have hspell := Speller.spell_eq_empty_iff_period (f := o.toFrame) hs hn
    show o.spell n = .ok "" ↔ _
    rw [o.spell_eq hso]
    cases hword : s.spell n o.toFrame with
    | error fault =>
      obtain ⟨w, hw⟩ := Speller.exists_spell_of_builtIn (f := o.toFrame) hs hn
      rw [hword] at hw
      cases hw
    | ok w =>
      rw [hword] at hspell
      show Except.ok w = Except.ok "" ↔ _
      simpa using hspell

/-- A million million million million is accepted, and Vietnamese has no words for it. -/
theorem vietnamese_writes_nothing :
    (Input.integer (10 ^ 24)).magnitude = .ok (10 ^ 24) ∧
      ({ selection := .builtIn .vietnamese } : Options).write (.integer (10 ^ 24)) = .ok "" := by
  have hm : (Input.integer (10 ^ 24)).magnitude = .ok (10 ^ 24) := by decide +kernel
  refine ⟨hm, (write_eq_empty_iff .vietnamese _ rfl _ fun i hi => ?_).2
    (.inr ⟨10 ^ 24, 10 ^ 24, hm, by decide +kernel, rfl, Nat.dvd_refl _⟩)⟩
  cases hi
  decide +kernel

end Options
end NumberWords
