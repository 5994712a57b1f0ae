import NumberWords.Proofs.Reading
import NumberWords.Proofs.Speller.Levels
import NumberWords.Words

/-!
Spellers that read alike.

Two descriptors with the same joining rules may have other lexicons and other units.  They spell a
number alike when the words of the two frames are the same (`SameWords`) and the two lists of units
make the same chunks, which they may take for granted for the counts inside (`Alike`).  The frames
themselves may differ, and whatever relates the outer ones has to relate those of the counts too.
Below one hundred no unit is asked, and the words alone are enough.
-/

namespace NumberWords
namespace Speller

variable {s s' : Speller} {sub sub' : Nested} {f f' : Frame} {n : Nat}

/-! ## Words -/

structure SameWords (s s' : Speller) (f f' : Frame) : Prop where
  whole : ∀ n, s.wholeWord? f n = s'.wholeWord? f' n
  lexicon : ∀ n, s.lexiconWord? f n = s'.lexiconWord? f' n

theorem SameWords.readTens_eq (h : s.SameWords s' f f')
    (hsub : sub (n % 10) f = sub' (n % 10) f') : s.readTens sub n f = s'.readTens sub' n f' := by
  by_cases h0 : n % 10 = 0
  · rw [readTens_of_zero h0, readTens_of_zero h0, h.lexicon]
  · rw [readTens_of_ne_zero h0, readTens_of_ne_zero h0, h.lexicon, hsub]

/-- Below one hundred the units do not matter. -/
theorem SameWords.read_eq (h : s.SameWords s' f f') (hn : n < 100) (levels : Nat) :
    s.read levels n f = s'.read levels n f' := by
  induction levels generalizing n with
  | zero => rfl
  | succ levels ih =>
    rw [read, read]
    cases hw : s.wholeWord? f n with
    | some w => rw [readStep_of_word hw, readStep_of_word ((h.whole n).symm.trans hw)]
    | none =>
      rw [readStep_of_lt hw hn, readStep_of_lt ((h.whole n).symm.trans hw) hn]
      exact h.readTens_eq (ih (by omega))

/-! ## Joining rules -/

structure SameRules (s s' : Speller) : Prop extends s.descriptor.JoinsAlike s'.descriptor where
  keepsAnd : s.descriptor.keepsAnd = s'.descriptor.keepsAnd
  joinsTail : s.descriptor.joinsTail = s'.descriptor.joinsTail

theorem SameRules.conjoin_eq (h : s.SameRules s') (k : Nat) (cs : List Chunk) :
    s.conjoin k cs = s'.conjoin k cs := by
  cases cs with
  | nil => rfl
  | cons lowest higher =>
    rw [conjoin, conjoin, h.joinsTail, h.tailSeparator,
      Chunk.text_eq_of_joinsAlike h.toJoinsAlike lowest]

theorem SameRules.map_text_eq (h : s.SameRules s') (r : Except SpellFault Reading) :
    Reading.text s.descriptor <$> r = Reading.text s'.descriptor <$> r :=
  congrArg (· <$> r) (funext (Reading.text_eq_of_joinsAlike h.toJoinsAlike))

/-! ## Units -/

/-- Two units make the same chunks under related frames if their counts are read alike there. -/
def SameChunks (s s' : Speller) (R : Frame → Frame → Prop) (unit unit' : ScaleUnit) : Prop :=
  ∀ (sub sub' : Nested) (f f' : Frame), R f f' → (∀ m g g', R g g' → sub m g = sub' m g') →
    ∀ tail position step count,
      s.unitChunk sub f tail position unit step count
        = s'.unitChunk sub' f' tail position unit' step count

/-- A unit agrees with itself where the words are the same and its counts have related frames. -/
theorem sameChunks_self {R : Frame → Frame → Prop} {unit : ScaleUnit}
    (hwords : ∀ f f', R f f' → s.SameWords s' f f')
    (hcount : R (s.countFrame unit) (s'.countFrame unit)) : s.SameChunks s' R unit unit := by
  intro sub sub' f f' hf hsub tail position step count
  cases unit with
  | plain w =>
    rw [unitChunk, unitChunk, hsub count _ _ hcount]
  | inflected u =>
    simp only [unitChunk, hsub count _ _ hcount, (hwords f f' hf).lexicon]

/-- Two spellers read every number alike under related frames. -/
structure Alike (s s' : Speller) (R : Frame → Frame → Prop) : Prop where
  rules : s.SameRules s'
  words : ∀ f f', R f f' → s.SameWords s' f f'
  noAnd : ∀ f f', R f f' → f.noAnd = f'.noAnd
  units : List.Forall₂ (fun u u' => s.SameChunks s' R u.1 u'.1 ∧ u.2 = u'.2) s.units s'.units

namespace Alike

variable {R : Frame → Frame → Prop}

theorem visits_eq {units units' : List (ScaleUnit × Option Step)} (hf : R f f')
    (hsub : ∀ m g g', R g g' → sub m g = sub' m g')
    (hunits : List.Forall₂ (fun u u' => s.SameChunks s' R u.1 u'.1 ∧ u.2 = u'.2) units units')
    (tail : Bool) (position remaining : Nat) :
    s.visits sub f tail position units remaining
      = s'.visits sub' f' tail position units' remaining := by
  induction hunits generalizing position remaining with
  | nil => rfl
  | @cons u u' rest rest' hu _ ih =>
    obtain ⟨unit, step?⟩ := u
    obtain ⟨unit', step?'⟩ := u'
    obtain ⟨hchunks, rfl⟩ := hu
    cases step? with
    | none => rfl
    | some step =>
      have hvisit : s.visit sub f tail position unit step remaining
          = s'.visit sub' f' tail position unit' step remaining := by
        simp only [visit, hchunks sub sub' f f' hf hsub]
      rw [visits, visits, hvisit]
      refine congrArg _ (funext fun v => ?_)
      rw [ih]

theorem tailChunks_eq (h : s.Alike s' R) (hf : R f f')
    (hsub : ∀ m g g', R g g' → sub m g = sub' m g') :
    s.tailChunks sub n f = s'.tailChunks sub' n f' := by
  have hseparates : s.separatesTail f = s'.separatesTail f' := by
    rw [separatesTail, separatesTail, h.noAnd f f' hf, h.rules.keepsAnd]
  by_cases h0 : n % 100 = 0
  · rw [tailChunks_eq_nil h0, tailChunks_eq_nil h0]
  · rw [tailChunks_of_ne_zero h0, tailChunks_of_ne_zero h0, hsub _ f f' hf, hseparates]

theorem readSum_eq (h : s.Alike s' R) (hf : R f f')
    (hsub : ∀ m g g', R g g' → sub m g = sub' m g') :
    s.readSum sub n f = s'.readSum sub' n f' := by
  rw [readSum, readSum, h.tailChunks_eq hf hsub, visits_eq hf hsub h.units]
  simp only [h.rules.conjoin_eq]

theorem readStep_eq (h : s.Alike s' R) (hf : R f f')
    (hsub : ∀ m g g', R g g' → sub m g = sub' m g') :
    s.readStep sub n f = s'.readStep sub' n f' := by
  have hwords := h.words f f' hf
  cases hw : s.wholeWord? f n with
  | some w => rw [readStep_of_word hw, readStep_of_word ((hwords.whole n).symm.trans hw)]
  | none =>
    have hw' := (hwords.whole n).symm.trans hw
    rcases Nat.lt_or_ge n 100 with hn | hn
    · rw [readStep_of_lt hw hn, readStep_of_lt hw' hn, hwords.readTens_eq (hsub _ f f' hf)]
    · rw [readStep_of_le hw hn, readStep_of_le hw' hn, h.readSum_eq hf hsub]

theorem read_eq (h : s.Alike s' R) (hf : R f f') (levels n : Nat) :
    s.read levels n f = s'.read levels n f' := by
  induction levels generalizing n f f' with
  | zero => rfl
  | succ levels ih => exact h.readStep_eq hf fun m g g' hg => ih hg m

theorem spell_eq (h : s.Alike s' R) (hf : R f f') (n : Nat) : s.spell n f = s'.spell n f' := by
  rw [spell, spell, h.read_eq hf, h.rules.map_text_eq]

end Alike

/-- Below one hundred the same words and rules are enough. -/
theorem SameWords.spell_eq (h : s.SameWords s' f f') (hrules : s.SameRules s') (hn : n < 100) :
    s.spell n f = s'.spell n f' := by
  rw [spell, spell, h.read_eq hn, hrules.map_text_eq]

end Speller

namespace Options

/-- Descriptors with one table spell a number alike when their spellers with this table do. -/
theorem spell_eq_of_scale {d d' : Descriptor} {f f' : Frame} {n : Nat} (hscale : d.scale = d'.scale)
    (h : ∀ t, Speller.spell { descriptor := d, scale := t } n f
      = Speller.spell { descriptor := d', scale := t } n f') :
    Options.spell { toFrame := f, selection := .custom d } n
      = Options.spell { toFrame := f', selection := .custom d' } n := by
  show (Descriptor.speller d >>= _) = (Descriptor.speller d' >>= _)
  rw [Descriptor.speller, Descriptor.speller, ← hscale]
  cases d.scale with
  | error e => rfl
  | ok t => exact congrArg (Except.mapError Error.spelling) (h t)

end Options
end NumberWords
