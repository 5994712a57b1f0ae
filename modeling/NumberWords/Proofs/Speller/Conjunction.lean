import NumberWords.Proofs.Speller.Faults
import NumberWords.Proofs.Speller.Leftover
import NumberWords.Proofs.Speller.TopDown

/-!
The conjunction from the top.

A chunk above others changes the conjunction only if they are one chunk
(`chunksText_conjoin_concat`, `conjoin_pair`).  With a conjunction too, a built-in language says an
irregular hundred as it would say it as a sum (`spell_eq_conjoin`).
-/

namespace NumberWords
namespace Speller

open Fallible

variable {s : Speller} {es : List Nat} {sub : Nested} {f g : Frame} {n : Nat}
variable {lower : List Chunk} {c c' : Chunk}

/-! ## A chunk above others -/

theorem uncounted_concat (lower : List Chunk) (c : Chunk) :
    uncounted (lower ++ [c]) = lower.countP (!·.isCounted) := by
  rw [uncounted, List.dropLast_concat]

theorem conjoin_concat (hne : lower ≠ []) (k : Nat) (c : Chunk) :
    s.conjoin k (lower ++ [c]) = s.conjoin k lower ++ [c] := by
  cases lower with
  | nil => exact absurd rfl hne
  | cons lowest higher =>
    simp only [List.cons_append, conjoin]
    split <;> rfl

theorem conjoin_ne_nil (hne : lower ≠ []) (k : Nat) : s.conjoin k lower ≠ [] := by
  rcases s.conjoin_cases k lower with heq | ⟨lowest, higher, w, -, heq⟩
  · rw [heq]
    exact hne
  · rw [heq]
    exact List.cons_ne_nil _ _

/-- Where the chunk above changes nothing about the conjunction, the text grows at its front. -/
theorem chunksText_conjoin_concat (hne : lower ≠ [])
    (h : uncounted (lower ++ [c]) = 0 ↔ uncounted lower = 0) :
    s.chunksText (s.conjoin (uncounted (lower ++ [c])) (lower ++ [c]))
      = c.text s.descriptor ++ " " ++ (s.descriptor.chunkSeparator.getD ""
        ++ s.chunksText (s.conjoin (uncounted lower) lower)) := by
  rw [conjoin_concat hne, conjoin_congr h, chunksText_append (conjoin_ne_nil hne _)]

theorem conjoin_pair (hjoin : s.descriptor.joinsTail = true) (hc' : c'.isCounted = false) :
    s.conjoin (uncounted [c', c]) [c', c] =
      if s.descriptor.tailSeparator.toList.isPrefixOf (c'.text s.descriptor).toList then [c', c]
      else [c', .conjunction (Text.trim s.descriptor.tailSeparator), c] := by
  have huncounted : uncounted [c', c] = 1 := by simp [uncounted, hc']
  rw [huncounted]
  simp only [conjoin, hjoin]
  split <;> simp_all

theorem isCounted_unitChunk {tail : Bool} {position count : Nat} {u : InflectedUnit} {step : Step}
    (hc : s.unitChunk sub f tail position (.inflected u) step count = .ok c) :
    c.isCounted = (!u.compound && !listed u.bareCounts count) := by
  rw [isCounted_of_unitChunk hc, ScaleUnit.standsAlone, Bool.not_or]

theorem isCounted_tailChunks {lowest : List Chunk} (hlowest : s.tailChunks sub n f = .ok lowest) :
    ∀ c ∈ lowest, c.isCounted = false := by
  rcases tailChunks_eq_ok hlowest with ⟨-, rfl⟩ | ⟨-, r, -, rfl⟩
  · exact List.forall_mem_nil _
  · exact List.forall_mem_singleton.2 rfl

/-! ## Frames -/

/-- Below one hundred a frame matters only through its alternative base. -/
theorem read_congr_alternative (h : s.alternative? f = s.alternative? g) (hn : n < 100)
    (levels : Nat) : s.read levels n f = s.read levels n g := by
  induction levels generalizing n with
  | zero => rfl
  | succ levels ih =>
    have hwhole : s.wholeWord? f n = s.wholeWord? g n := by rw [wholeWord?, wholeWord?, h]
    rw [read, read]
    cases hw : s.wholeWord? g n with
    | some w => rw [readStep_of_word (hwhole.trans hw), readStep_of_word hw]
    | none =>
      rw [readStep_of_lt (hwhole.trans hw) hn, readStep_of_lt hw hn, readTens, readTens,
        lexiconWord?, lexiconWord?, h, ih (by omega)]

theorem headWords_congr_alternative (h : s.alternative? f = s.alternative? g) (top : Rung) :
    s.headWords f n top = s.headWords g n top := by
  unfold headWords lexiconWord?
  rw [h]

/-! ## Heads -/

section

variable {top : Rung} {u : InflectedUnit} (hu : top.unit = .inflected u)
include hu

theorem headWords_of_compound (hcompound : u.compound = true) :
    s.headWords f n top =
      if listed u.compoundExceptions (n / top.step.threshold)
          && (!u.exceptionsNeedTail || (top.position == 0 && n % 100 != 0))
      then .ok (u.ownWord (n / top.step.threshold))
      else match s.lexiconWord? f (n / top.step.threshold * top.step.threshold) with
        | some w => .ok w
        | none => .error (.missingWord (n / top.step.threshold * top.step.threshold)) := by
  unfold headWords
  rw [hu]
  exact if_pos hcompound

theorem headWords_of_bare (hcompound : u.compound = false)
    (hbare : listed u.bareCounts (n / top.step.threshold) = true) :
    s.headWords f n top
      = .ok ((ScaleUnit.inflected u).wordFor (n / top.step.threshold) (n % 100 != 0)) := by
  unfold headWords
  rw [hu]
  simp only [hcompound, hbare, Bool.false_eq_true, if_false, if_true]

theorem headWords_of_counted (hcompound : u.compound = false)
    (hbare : ¬ listed u.bareCounts (n / top.step.threshold) = true) :
    s.headWords f n top = (· ++ " "
        ++ (ScaleUnit.inflected u).wordFor (n / top.step.threshold) (n % 100 != 0)) <$>
      s.spell (n / top.step.threshold) (s.countFrame (.inflected u)) := by
  unfold headWords
  rw [hu]
  simp only [hcompound, hbare, Bool.false_eq_true, if_false]

end

/-! ## Built-in languages -/

section

variable {l : Language} (hs : l.descriptor.speller = .ok s)
include hs

theorem spell_eq_conjoin (hn : 100 ≤ n) :
    s.spell n f = (fun cs => s.chunksText (s.conjoin (uncounted cs) cs)) <$>
      s.chunks (s.read deepestLevel) f n := by
  obtain ⟨-, es, h⟩ := scaled_of_speller hs
  cases hw : s.wholeWord? f n with
  | some w =>
    rw [spell, read, readStep_of_word hw, chunks_of_wholeWord hs hn hw]
    show Except.ok w = Except.ok (s.chunksText (s.conjoin 0 [.whole 0 (n / 100) w]))
    rw [conjoin_zero]
    rfl
  | none =>
    rw [spell, read, readStep_of_le hw hn, readSum_eq_conjoin h (Language.threshold_first hs)]
    cases s.chunks (s.read deepestLevel) f n with
    | error fault => rfl
    | ok cs =>
      show Except.ok (s.descriptor.joinChunks (Chunk.texts s.descriptor _)) = _
      rw [Chunk.texts_eq_map]
      rfl

/-- What is said of a number below one hundred begins with a word of the lexicons. -/
theorem text_of_lt_hundred {levels : Nat} {r : Reading} (hn : n < 100)
    (hr : s.read levels n f = .ok r) :
    ∃ m w rest, s.descriptor.Has m w ∧ r.text s.descriptor = w ++ rest := by
  obtain ⟨hd, -⟩ := scaled_of_speller hs
  cases levels with
  | zero => cases hr
  | succ levels =>
    rw [read] at hr
    cases hw : s.wholeWord? f n with
    | some w =>
      rw [readStep_of_word hw] at hr
      cases hr
      exact ⟨n, w, "", has_of_wholeWord? hw, String.append_empty.symm⟩
    | none =>
      obtain ⟨w, hten⟩ := Option.isSome_iff_exists.1 (l.ten_said (n / 10) (by omega))
      obtain ⟨w', hword⟩ : ∃ w', s.lexiconWord? f (n / 10 * 10) = some w' := by
        apply Option.isSome_iff_exists.1
        rw [← hd] at hten
        rw [lexiconWord?, hten, Option.isSome_or]
        exact Bool.or_true _
      rw [readStep_of_lt hw hn] at hr
      refine ⟨n / 10 * 10, w', ?_⟩
      by_cases h0 : n % 10 = 0
      · rw [readTens_of_zero h0, hword] at hr
        cases hr
        exact ⟨"", has_of_lexiconWord? hword, String.append_empty.symm⟩
      · rw [readTens_of_ne_zero h0, hword] at hr
        obtain ⟨unit, -, rfl⟩ := map_eq_ok.1 hr
        exact ⟨s.descriptor.tensSeparator ++ unit.text s.descriptor, has_of_lexiconWord? hword,
          String.append_assoc⟩

end

end Speller
end NumberWords
