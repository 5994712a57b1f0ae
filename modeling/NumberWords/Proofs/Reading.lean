import Mathlib.Data.List.Induction
import NumberWords.Reading

/-!
The text of a reading from its parts.

The most significant chunk comes first in the text and last in the list, so a sum grows at the end
of its list and at the front of its text (`joinChunks_append`).  Of a descriptor the text depends on
the three separators alone (`Reading.text_eq_of_joinsAlike`).
-/

namespace NumberWords

namespace Descriptor

variable (d : Descriptor) {texts : List String}

/-- A chunk above the others is put before them. -/
theorem joinChunks_append (h : texts ≠ []) (t : String) :
    d.joinChunks (texts ++ [t])
      = t ++ " " ++ (d.chunkSeparator.getD "" ++ d.joinChunks texts) := by
  unfold joinChunks
  rw [List.reverse_append, List.reverse_singleton, List.singleton_append]
  cases hrev : texts.reverse with
  | nil => exact absurd (List.reverse_eq_nil_iff.1 hrev) h
  | cons top lower =>
    show " ".intercalate (t :: (d.chunkSeparator.getD "" ++ top) :: lower.map _) = _
    rw [String.intercalate_cons_cons, String.intercalate_cons_append]

/-- A chunk below the others is put after them. -/
theorem joinChunks_cons (t : String) (h : texts ≠ []) :
    d.joinChunks (t :: texts)
      = d.joinChunks texts ++ " " ++ d.chunkSeparator.getD "" ++ t := by
  induction texts using List.reverseRecOn with
  | nil => exact absurd rfl h
  | append_singleton texts top ih =>
    by_cases hnil : texts = []
    · subst hnil
      show " ".intercalate [top, d.chunkSeparator.getD "" ++ t]
        = " ".intercalate [top] ++ " " ++ d.chunkSeparator.getD "" ++ t
      simp only [String.intercalate_cons_cons, String.intercalate_singleton, String.append_assoc]
    · rw [← List.cons_append, d.joinChunks_append (List.cons_ne_nil _ _),
        d.joinChunks_append hnil, ih hnil]
      simp only [String.append_assoc]

/-- Two chunks have a space between them, so only one empty chunk has no text. -/
theorem joinChunks_eq_empty (h : d.joinChunks texts = "") : texts = [] ∨ texts = [""] := by
  unfold joinChunks at h
  cases hrev : texts.reverse with
  | nil => exact .inl (List.reverse_eq_nil_iff.1 hrev)
  | cons top lower =>
    simp only [hrev] at h
    cases lower with
    | nil =>
      have htop : top = "" := h
      rw [htop] at hrev
      exact .inr (by rw [← List.reverse_reverse texts, hrev]; rfl)
    | cons t lower =>
      rw [List.map_cons, String.intercalate_cons_cons] at h
      have hspace := (String.append_eq_empty_iff.1 (String.append_eq_empty_iff.1 h).1).2
      exact absurd hspace (by decide)

structure JoinsAlike (d d' : Descriptor) : Prop where
  tensSeparator : d.tensSeparator = d'.tensSeparator
  tailSeparator : d.tailSeparator = d'.tailSeparator
  chunkSeparator : d.chunkSeparator = d'.chunkSeparator

end Descriptor

variable {d d' : Descriptor}

mutual
theorem Reading.text_eq_of_joinsAlike (h : d.JoinsAlike d') : ∀ r : Reading, r.text d = r.text d'
  | .word _ => rfl
  | .tens w unit => by
    rw [Reading.text, Reading.text, h.tensSeparator, Reading.text_eq_of_joinsAlike h unit]
  | .sum chunks => by
    rw [Reading.text, Reading.text, Descriptor.joinChunks, Descriptor.joinChunks,
      h.chunkSeparator, Chunk.texts_eq_of_joinsAlike h chunks]

theorem Chunk.text_eq_of_joinsAlike (h : d.JoinsAlike d') : ∀ c : Chunk, c.text d = c.text d'
  | .tail separated r => by
    rw [Chunk.text, Chunk.text, h.tailSeparator, Reading.text_eq_of_joinsAlike h r]
  | .counted position count phrase w => by
    rw [Chunk.text, Chunk.text, Reading.text_eq_of_joinsAlike h phrase]
  | .whole .. => rfl
  | .conjunction _ => rfl

theorem Chunk.texts_eq_of_joinsAlike (h : d.JoinsAlike d') :
    ∀ cs : List Chunk, Chunk.texts d cs = Chunk.texts d' cs
  | [] => rfl
  | c :: rest => by
    rw [Chunk.texts, Chunk.texts, Chunk.text_eq_of_joinsAlike h c,
      Chunk.texts_eq_of_joinsAlike h rest]
end

end NumberWords
