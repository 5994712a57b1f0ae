import NumberWords.Proofs.Speller.Chunks
import NumberWords.Proofs.Speller.Levels

/-!
The chunks of a reading at every depth.

A chunk stands in a reading because one step of reading put it there (`mem_parts_of_readStep`), so
by induction on the levels each one is the chunk of a rung for the number that is read or for a
number read inside it (`mem_parts_of_read`).
-/

namespace NumberWords

mutual
def Reading.parts : Reading → List Chunk
  | .word _ => []
  | .tens _ unit => unit.parts
  | .sum chunks => Chunk.partsOf chunks

def Chunk.parts : Chunk → List Chunk
  | .tail separated r => .tail separated r :: r.parts
  | .counted position count phrase w => .counted position count phrase w :: phrase.parts
  | .whole position count w => [.whole position count w]
  | .conjunction w => [.conjunction w]

def Chunk.partsOf : List Chunk → List Chunk
  | [] => []
  | c :: rest => c.parts ++ Chunk.partsOf rest
end

theorem Chunk.mem_partsOf {c : Chunk} {cs : List Chunk} :
    c ∈ Chunk.partsOf cs ↔ ∃ c' ∈ cs, c ∈ c'.parts := by
  induction cs with
  | nil => simp [Chunk.partsOf]
  | cons c' rest ih => simp [Chunk.partsOf, ih]

theorem Chunk.mem_parts_self (c : Chunk) : c ∈ c.parts := by
  cases c <;> simp [Chunk.parts]

namespace Speller

open Fallible

/-- Numbers that are read inside others: digits and tails, and counts of units. -/
def ReadInside (s : Speller) (m : Nat) : Prop :=
  m < 100 ∨ ∃ r ∈ s.rungs, ∃ k, m = r.step.count k

def PutsChunk (s : Speller) (n : Nat) (c : Chunk) : Prop :=
  ∃ r ∈ s.rungs, r.step.count n ≠ 0 ∧ ∃ levels f, s.rungChunk (s.read levels) f n r = .ok c

variable {s : Speller} {es : List Nat} {f : Frame} {n levels : Nat} {r : Reading} {c : Chunk}

theorem mem_of_mem_conjoin {k : Nat} {cs : List Chunk} (hc : c ∈ s.conjoin k cs) :
    c ∈ cs ∨ ∃ w, c = .conjunction w := by
  rcases s.conjoin_cases k cs with heq | ⟨lowest, higher, w, hcs, heq⟩
  · rw [heq] at hc
    exact .inl hc
  · rw [heq] at hc
    rw [hcs]
    simp only [List.mem_cons] at hc ⊢
    rcases hc with hc | hc | hc
    · exact .inl (.inl hc)
    · exact .inr ⟨w, hc⟩
    · exact .inl (.inr hc)

theorem mem_conjoin_of_mem {k : Nat} {cs : List Chunk} (hc : c ∈ cs) : c ∈ s.conjoin k cs := by
  rcases s.conjoin_cases k cs with heq | ⟨lowest, higher, w, hcs, heq⟩
  · rw [heq]
    exact hc
  · rw [hcs] at hc
    rw [heq]
    simp only [List.mem_cons] at hc ⊢
    rcases hc with hc | hc
    · exact .inl hc
    · exact .inr (.inr hc)

/-- What stands inside a tail is the tail or part of what lies below one hundred. -/
theorem mem_parts_of_tailChunks {sub : Nested} {lowest : List Chunk} {c' : Chunk}
    (hlowest : s.tailChunks sub n f = .ok lowest) (hc' : c' ∈ lowest) (hc : c ∈ c'.parts) :
    (∃ separated tail, c = .tail separated tail) ∨
      ∃ tail, sub (n % 100) f = .ok tail ∧ c ∈ tail.parts := by
  rcases tailChunks_eq_ok hlowest with ⟨-, rfl⟩ | ⟨-, tail, htail, rfl⟩
  · cases hc'
  · obtain rfl := List.mem_singleton.1 hc'
    rw [Chunk.parts, List.mem_cons] at hc
    rcases hc with hc | hc
    · exact .inl ⟨_, tail, hc⟩
    · exact .inr ⟨tail, htail, hc⟩

/-- What stands inside the chunk of a rung is that chunk or part of its count. -/
theorem mem_parts_of_rungChunk {sub : Nested} {rung : Rung} {c' : Chunk}
    (hc' : s.rungChunk sub f n rung = .ok c') (hc : c ∈ c'.parts) :
    c = c' ∨ ∃ g phrase, sub (rung.step.count n) g = .ok phrase ∧ c ∈ phrase.parts := by
  rcases unitChunk_eq_ok hc' with ⟨phrase, hphrase, rfl⟩ | ⟨w, rfl, -⟩
  · rw [Chunk.parts, List.mem_cons] at hc
    rcases hc with hc | hc
    · exact .inl hc
    · exact .inr ⟨_, phrase, hphrase, hc⟩
  · rw [Chunk.parts, List.mem_singleton] at hc
    exact .inl hc

/-- One step of reading puts in the tail, a conjunction and the chunks of rungs; every other chunk
is part of a number that is read inside. -/
theorem mem_parts_of_readStep (h : s.Scaled es)
    (hr : s.readStep (s.read levels) n f = .ok r) (hc : c ∈ r.parts) :
    (∃ separated tail, c = .tail separated tail) ∨ (∃ w, c = .conjunction w) ∨ s.PutsChunk n c ∨
      ∃ m g inner, m ≤ n ∧ s.ReadInside m ∧ s.read levels m g = .ok inner ∧ c ∈ inner.parts := by
  cases hw : s.wholeWord? f n with
  | some w =>
    rw [readStep_of_word hw] at hr
    cases hr
    cases hc
  | none =>
    rcases Nat.lt_or_ge n 100 with hn | hn
    · rw [readStep_of_lt hw hn] at hr
      by_cases h0 : n % 10 = 0
      · rw [readTens_of_zero h0] at hr
        cases hr
        cases hc
      · rw [readTens_of_ne_zero h0] at hr
        obtain ⟨digit, hdigit, rfl⟩ := map_eq_ok.1 hr
        exact .inr (.inr (.inr
          ⟨n % 10, f, digit, Nat.mod_le _ _, .inl (by omega), hdigit, hc⟩))
    · rw [readStep_of_le hw hn] at hr
      obtain ⟨k, lowest, higher, hlowest, hhigher, rfl⟩ := exists_chunks_of_readSum h hr
      rw [Reading.parts, Chunk.mem_partsOf] at hc
      obtain ⟨c', hc', hc⟩ := hc
      rcases mem_of_mem_conjoin hc' with hmem | ⟨w, rfl⟩
      · rcases List.mem_append.1 hmem with hmem | hmem
        · rcases mem_parts_of_tailChunks hlowest hmem hc with htail | ⟨tail, htail, hc⟩
          · exact .inl htail
          · exact .inr (.inr (.inr
              ⟨n % 100, f, tail, Nat.mod_le _ _, .inl (by omega), htail, hc⟩))
        · obtain ⟨rung, hrung, hcount, hchunk⟩ := exists_rung_of_mem hhigher hmem
          rcases mem_parts_of_rungChunk hchunk hc with rfl | ⟨g, phrase, hphrase, hc⟩
          · exact .inr (.inr (.inl ⟨rung, hrung, hcount, levels, f, hchunk⟩))
          · have hle := (inner_count h hn hrung).1
            exact .inr (.inr (.inr
              ⟨_, g, phrase, hle, .inr ⟨rung, hrung, n, rfl⟩, hphrase, hc⟩))
      · rw [Chunk.parts, List.mem_singleton] at hc
        exact .inr (.inl ⟨w, hc⟩)

/-- A chunk at any depth is a tail, a conjunction, or the chunk of a rung for the whole number or
for one that is read inside it. -/
theorem mem_parts_of_read (h : s.Scaled es) (hr : s.read levels n f = .ok r) (hc : c ∈ r.parts) :
    (∃ separated tail, c = .tail separated tail) ∨ (∃ w, c = .conjunction w) ∨
      ∃ m, m ≤ n ∧ (m = n ∨ s.ReadInside m) ∧ s.PutsChunk m c := by
  induction levels generalizing n f r with
  | zero => cases hr
  | succ levels ih =>
    rcases mem_parts_of_readStep h hr hc with
      htail | hconj | hput | ⟨m, g, inner, hle, hinside, hinner, hc⟩
    · exact .inl htail
    · exact .inr (.inl hconj)
    · exact .inr (.inr ⟨n, Nat.le_refl n, .inl rfl, hput⟩)
    · rcases ih hinner hc with htail | hconj | ⟨m', hle', hm', hput⟩
      · exact .inl htail
      · exact .inr (.inl hconj)
      · refine .inr (.inr ⟨m', Nat.le_trans hle' hle, .inr ?_, hput⟩)
        rcases hm' with rfl | hm'
        · exact hinside
        · exact hm'

/-- The chunk of a rung with a count stands in the reading. -/
theorem mem_parts_of_rung (h : s.Scaled es) (hw : s.wholeWord? f n = none) (hn : 100 ≤ n)
    (hr : s.read (levels + 1) n f = .ok r) {rung : Rung} (hrung : rung ∈ s.rungs)
    (hcount : rung.step.count n ≠ 0) :
    ∃ c ∈ r.parts, s.rungChunk (s.read levels) f n rung = .ok c := by
  rw [read, readStep_of_le hw hn] at hr
  obtain ⟨k, lowest, higher, -, hhigher, rfl⟩ := exists_chunks_of_readSum h hr
  obtain ⟨c, hc, hchunk⟩ := exists_mem_of_rung hhigher hrung hcount
  refine ⟨c, ?_, hchunk⟩
  rw [Reading.parts, Chunk.mem_partsOf]
  exact ⟨c, mem_conjoin_of_mem (List.mem_append_right lowest hc), c.mem_parts_self⟩

end Speller
end NumberWords
