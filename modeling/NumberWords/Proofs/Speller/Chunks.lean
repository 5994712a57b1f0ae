import NumberWords.Proofs.Speller.Walk

/-!
The chunks of a sum.

A sum is the tail and one chunk for each rung with a count, before a conjunction is put in
(`chunks`).  The chunks of a number are those of its part below a rung and the chunk of the rung,
which is how a sum is read from the top (`chunks_eq_append`).
-/

namespace NumberWords

/-- Whether the unit says a count in one word, and not beside the count. -/
def ScaleUnit.standsAlone (count : Nat) : ScaleUnit → Bool
  | .plain _ => false
  | .inflected u => u.compound || listed u.bareCounts count

namespace Speller

open Fallible

def chunksOver (s : Speller) (sub : Nested) (f : Frame) (n : Nat) (rs : List Rung) :
    Except SpellFault (List Chunk) :=
  (List.filterMap (·.chunk)) <$>
    rs.mapM fun r => s.visit sub f (n % 100 != 0) r.position r.unit r.step n

def rungChunk (s : Speller) (sub : Nested) (f : Frame) (n : Nat) (r : Rung) :
    Except SpellFault Chunk :=
  s.unitChunk sub f (n % 100 != 0) r.position r.unit r.step (r.step.count n)

def chunks (s : Speller) (sub : Nested) (f : Frame) (n : Nat) : Except SpellFault (List Chunk) := do
  let lowest ← s.tailChunks sub n f
  let higher ← s.chunksOver sub f n s.rungs
  .ok (lowest ++ higher)

variable {s : Speller} {es : List Nat} {sub : Nested} {f : Frame} {n m : Nat}
variable {r : Rung} {rs rs' : List Rung}

/-- What the chunk of a unit can be: a count and the word beside it, the bare word, the word of an
exceptional count, or the word of the lexicons, which may be missing. -/
theorem unitChunk_cases (s : Speller) (sub : Nested) (f : Frame) (tail : Bool) (position : Nat)
    (unit : ScaleUnit) (step : Step) (count : Nat) :
    s.unitChunk sub f tail position unit step count =
        (fun r => .counted position count r (unit.wordFor count tail)) <$>
          sub count (s.countFrame unit) ∨
      s.unitChunk sub f tail position unit step count
        = .ok (.whole position count (unit.wordFor count tail)) ∨
      ∃ u, unit = .inflected u ∧ u.compound = true ∧
        (s.unitChunk sub f tail position unit step count
            = .ok (.whole position count (u.ownWord count)) ∨
          (∃ w, s.lexiconWord? f (count * step.threshold) = some w ∧
            s.unitChunk sub f tail position unit step count = .ok (.whole position count w)) ∨
          s.lexiconWord? f (count * step.threshold) = none ∧
            s.unitChunk sub f tail position unit step count
              = .error (.missingWord (count * step.threshold))) := by
  cases unit with
  | plain w => exact .inl rfl
  | inflected u =>
    simp only [unitChunk]
    by_cases hcompound : u.compound = true
    · refine .inr (.inr ⟨u, rfl, hcompound, ?_⟩)
      rw [if_pos hcompound]
      by_cases hexcept : u.exceptsCompound position count tail = true
      · rw [if_pos hexcept]
        exact .inl rfl
      · rw [if_neg hexcept]
        cases s.lexiconWord? f (count * step.threshold) with
        | none => exact .inr (.inr ⟨rfl, rfl⟩)
        | some w => exact .inr (.inl ⟨w, rfl, rfl⟩)
    · rw [if_neg hcompound]
      by_cases hbare : listed u.bareCounts count = true
      · rw [if_pos hbare]
        exact .inr (.inl rfl)
      · rw [if_neg hbare]
        exact .inl rfl

/-- The chunk of a unit has the reading of the count with the word beside it, or it is one word:
that of the unit, of an exceptional count, or of the lexicons. -/
theorem unitChunk_eq_ok {tail : Bool} {position count : Nat} {unit : ScaleUnit} {step : Step}
    {c : Chunk} (hc : s.unitChunk sub f tail position unit step count = .ok c) :
    (∃ phrase, sub count (s.countFrame unit) = .ok phrase ∧
        c = .counted position count phrase (unit.wordFor count tail)) ∨
      ∃ w, c = .whole position count w ∧
        (w = unit.wordFor count tail ∨
          (∃ u, unit = .inflected u ∧ u.compound = true ∧ w = u.ownWord count) ∨
          s.lexiconWord? f (count * step.threshold) = some w) := by
  rcases s.unitChunk_cases sub f tail position unit step count with
    hcounted | hbare | ⟨u, hu, hcompound, hexcept | ⟨w, hw, hword⟩ | ⟨-, hmissing⟩⟩
  · rw [hcounted] at hc
    obtain ⟨phrase, hphrase, rfl⟩ := map_eq_ok.1 hc
    exact .inl ⟨phrase, hphrase, rfl⟩
  · rw [hbare] at hc
    cases hc
    exact .inr ⟨_, rfl, .inl rfl⟩
  · rw [hexcept] at hc
    cases hc
    exact .inr ⟨_, rfl, .inr (.inl ⟨u, hu, hcompound, rfl⟩)⟩
  · rw [hword] at hc
    cases hc
    exact .inr ⟨w, rfl, .inr (.inr hw)⟩
  · rw [hmissing] at hc
    cases hc

theorem unitChunk_of_counted {tail : Bool} {position count : Nat} {unit : ScaleUnit} {step : Step}
    (h : unit.standsAlone count = false) :
    s.unitChunk sub f tail position unit step count =
      (fun r => .counted position count r (unit.wordFor count tail)) <$>
        sub count (s.countFrame unit) := by
  cases unit with
  | plain w => rfl
  | inflected u =>
    obtain ⟨hcompound, hbare⟩ := Bool.or_eq_false_iff.1 h
    simp only [unitChunk, hcompound, hbare, Bool.false_eq_true, if_false]
    rfl

/-- Where the unit stands alone, no count is read. -/
theorem unitChunk_of_standsAlone {tail : Bool} {position count : Nat} {unit : ScaleUnit}
    {step : Step} (h : unit.standsAlone count = true) (sub sub' : Nested) :
    s.unitChunk sub f tail position unit step count
      = s.unitChunk sub' f tail position unit step count := by
  cases unit with
  | plain w => cases h
  | inflected u =>
    simp only [unitChunk]
    by_cases hcompound : u.compound = true
    · rw [if_pos hcompound, if_pos hcompound]
    · have hbare := (Bool.or_eq_true_iff.1 h).resolve_left hcompound
      rw [if_neg hcompound, if_neg hcompound, if_pos hbare, if_pos hbare]

/-! ## One rung after another -/

theorem chunksOver_cons_of_zero (h : r.step.count n = 0) :
    s.chunksOver sub f n (r :: rs) = s.chunksOver sub f n rs := by
  unfold chunksOver
  rw [List.mapM_cons, visit_of_zero h]
  cases rs.mapM fun r => s.visit sub f (n % 100 != 0) r.position r.unit r.step n with
  | error fault => rfl
  | ok vs => rfl

theorem chunksOver_cons (h : r.step.count n ≠ 0) :
    s.chunksOver sub f n (r :: rs) = (do
      let c ← s.rungChunk sub f n r
      let cs ← s.chunksOver sub f n rs
      .ok (c :: cs)) := by
  unfold chunksOver rungChunk
  rw [List.mapM_cons, visit_of_ne_zero h]
  cases s.unitChunk sub f (n % 100 != 0) r.position r.unit r.step (r.step.count n) with
  | error fault => rfl
  | ok c =>
    cases rs.mapM fun r => s.visit sub f (n % 100 != 0) r.position r.unit r.step n with
    | error fault => rfl
    | ok vs => rfl

theorem chunksOver_eq_nil (h : ∀ r ∈ rs, r.step.count n = 0) :
    s.chunksOver sub f n rs = .ok [] := by
  induction rs with
  | nil => rfl
  | cons r rs ih =>
    rw [chunksOver_cons_of_zero (h r List.mem_cons_self)]
    exact ih fun r' hr' => h r' (List.mem_cons_of_mem r hr')

theorem chunksOver_append :
    s.chunksOver sub f n (rs ++ rs') = (do
      let lower ← s.chunksOver sub f n rs
      let higher ← s.chunksOver sub f n rs'
      .ok (lower ++ higher)) := by
  induction rs with
  | nil =>
    show s.chunksOver sub f n rs' = (do .ok (← s.chunksOver sub f n rs'))
    cases s.chunksOver sub f n rs' with
    | error fault => rfl
    | ok cs => rfl
  | cons r rs ih =>
    by_cases h0 : r.step.count n = 0
    · rw [List.cons_append, chunksOver_cons_of_zero h0, chunksOver_cons_of_zero h0, ih]
    · rw [List.cons_append, chunksOver_cons h0, chunksOver_cons h0, ih]
      simp only [bind_assoc]
      rfl

theorem chunksOver_congr (htail : m % 100 = n % 100)
    (hcount : ∀ r ∈ rs, r.step.count m = r.step.count n) :
    s.chunksOver sub f m rs = s.chunksOver sub f n rs := by
  unfold chunksOver
  rw [htail, mapM_congr fun r hr => visit_congr (hcount r hr)]

/-! ## Where chunks come from -/

theorem exists_rung_of_mem {cs : List Chunk} (hcs : s.chunksOver sub f n rs = .ok cs) {c : Chunk}
    (hc : c ∈ cs) : ∃ r ∈ rs, r.step.count n ≠ 0 ∧ s.rungChunk sub f n r = .ok c := by
  induction rs generalizing cs with
  | nil =>
    cases hcs
    cases hc
  | cons r rs ih =>
    by_cases h0 : r.step.count n = 0
    · rw [chunksOver_cons_of_zero h0] at hcs
      obtain ⟨r', hr', hne, hchunk⟩ := ih hcs hc
      exact ⟨r', List.mem_cons_of_mem r hr', hne, hchunk⟩
    · rw [chunksOver_cons h0] at hcs
      obtain ⟨c', hc', hcs⟩ := bind_eq_ok.1 hcs
      obtain ⟨cs', hcs', hcs⟩ := bind_eq_ok.1 hcs
      cases hcs
      rcases List.mem_cons.1 hc with rfl | hmem
      · exact ⟨r, List.mem_cons_self, h0, hc'⟩
      · obtain ⟨r', hr', hne, hchunk⟩ := ih hcs' hmem
        exact ⟨r', List.mem_cons_of_mem r hr', hne, hchunk⟩

theorem exists_mem_of_rung {cs : List Chunk} (hcs : s.chunksOver sub f n rs = .ok cs)
    (hr : r ∈ rs) (h0 : r.step.count n ≠ 0) :
    ∃ c ∈ cs, s.rungChunk sub f n r = .ok c := by
  obtain ⟨before, after, rfl⟩ := List.append_of_mem hr
  rw [chunksOver_append, chunksOver_cons h0] at hcs
  obtain ⟨lower, -, hcs⟩ := bind_eq_ok.1 hcs
  obtain ⟨higher, hhigher, hcs⟩ := bind_eq_ok.1 hcs
  obtain ⟨c, hc, hhigher⟩ := bind_eq_ok.1 hhigher
  obtain ⟨rest, -, hhigher⟩ := bind_eq_ok.1 hhigher
  cases hhigher
  cases hcs
  exact ⟨c, by simp, hc⟩

theorem exists_rung_of_error {e : SpellFault} (he : s.chunksOver sub f n rs = .error e) :
    ∃ r ∈ rs, r.step.count n ≠ 0 ∧ s.rungChunk sub f n r = .error e := by
  induction rs with
  | nil => cases he
  | cons r rs ih =>
    by_cases h0 : r.step.count n = 0
    · rw [chunksOver_cons_of_zero h0] at he
      obtain ⟨r', hr', hne, hchunk⟩ := ih he
      exact ⟨r', List.mem_cons_of_mem r hr', hne, hchunk⟩
    · rw [chunksOver_cons h0] at he
      rcases bind_eq_error.1 he with hr | ⟨c, -, he⟩
      · exact ⟨r, List.mem_cons_self, h0, hr⟩
      · rcases bind_eq_error.1 he with hrs | ⟨cs, -, he⟩
        · obtain ⟨r', hr', hne, hchunk⟩ := ih hrs
          exact ⟨r', List.mem_cons_of_mem r hr', hne, hchunk⟩
        · cases he

theorem count_eq_zero_of_chunksOver (h : s.chunksOver sub f n rs = .ok []) :
    ∀ r ∈ rs, r.step.count n = 0 := by
  induction rs with
  | nil => exact fun r hr => (nomatch hr)
  | cons r rs ih =>
    by_cases h0 : r.step.count n = 0
    · rw [chunksOver_cons_of_zero h0] at h
      exact List.forall_mem_cons.2 ⟨h0, ih h⟩
    · rw [chunksOver_cons h0] at h
      obtain ⟨c, -, h⟩ := bind_eq_ok.1 h
      obtain ⟨cs, -, h⟩ := bind_eq_ok.1 h
      cases h

/-! ## The chunks of a sum -/

theorem tailChunks_eq_nil (h : n % 100 = 0) : s.tailChunks sub n f = .ok [] := by
  unfold tailChunks
  rw [if_pos h]

theorem tailChunks_of_ne_zero (h : n % 100 ≠ 0) :
    s.tailChunks sub n f = (fun r => [.tail (s.separatesTail f) r]) <$> sub (n % 100) f := by
  unfold tailChunks
  rw [if_neg h]

theorem tailChunks_eq_ok {lowest : List Chunk} (h : s.tailChunks sub n f = .ok lowest) :
    n % 100 = 0 ∧ lowest = [] ∨
      n % 100 ≠ 0 ∧ ∃ r, sub (n % 100) f = .ok r ∧ lowest = [.tail (s.separatesTail f) r] := by
  by_cases h0 : n % 100 = 0
  · rw [tailChunks_eq_nil h0] at h
    cases h
    exact .inl ⟨h0, rfl⟩
  · rw [tailChunks_of_ne_zero h0] at h
    obtain ⟨r, hr, rfl⟩ := map_eq_ok.1 h
    exact .inr ⟨h0, r, hr, rfl⟩

theorem chunks_eq_ok {cs : List Chunk} (h : s.chunks sub f n = .ok cs) :
    ∃ lowest higher, s.tailChunks sub n f = .ok lowest ∧
      s.chunksOver sub f n s.rungs = .ok higher ∧ cs = lowest ++ higher := by
  obtain ⟨lowest, hlowest, h⟩ := bind_eq_ok.1 h
  obtain ⟨higher, hhigher, h⟩ := bind_eq_ok.1 h
  exact ⟨lowest, higher, hlowest, hhigher, (Except.ok.inj h).symm⟩

/-- A conjunction is put in after the lowest chunk or not at all. -/
theorem conjoin_cases (s : Speller) (k : Nat) (cs : List Chunk) :
    s.conjoin k cs = cs ∨ ∃ lowest higher w, cs = lowest :: higher ∧
      s.conjoin k cs = lowest :: .conjunction w :: higher := by
  cases cs with
  | nil => exact .inl rfl
  | cons lowest higher =>
    simp only [conjoin]
    split
    · exact .inr ⟨lowest, higher, _, rfl, rfl⟩
    · exact .inl rfl

theorem conjoin_of_not_joinsTail (h : s.descriptor.joinsTail = false) (k : Nat)
    (cs : List Chunk) : s.conjoin k cs = cs := by
  cases cs with
  | nil => rfl
  | cons lowest higher => simp [conjoin, h]

/-- A sum is its chunks with a conjunction where one belongs. -/
theorem readSum_eq (h : s.Scaled es) (sub : Nested) (f : Frame) (n : Nat) :
    ∃ k, s.readSum sub n f = (fun cs => .sum (s.conjoin k cs)) <$> s.chunks sub f n := by
  unfold readSum chunks chunksOver
  rw [visits_eq h]
  cases s.tailChunks sub n f with
  | error fault => exact ⟨0, rfl⟩
  | ok lowest =>
    cases s.rungs.mapM fun r => s.visit sub f (n % 100 != 0) r.position r.unit r.step n with
    | error fault => exact ⟨0, rfl⟩
    | ok vs => exact ⟨leftover n vs, rfl⟩

theorem exists_chunks_of_readSum (h : s.Scaled es) {r : Reading}
    (hr : s.readSum sub n f = .ok r) :
    ∃ k lowest higher, s.tailChunks sub n f = .ok lowest ∧
      s.chunksOver sub f n s.rungs = .ok higher ∧ r = .sum (s.conjoin k (lowest ++ higher)) := by
  obtain ⟨k, hk⟩ := readSum_eq h sub f n
  rw [hk] at hr
  obtain ⟨cs, hcs, rfl⟩ := map_eq_ok.1 hr
  obtain ⟨lowest, higher, hlowest, hhigher, rfl⟩ := chunks_eq_ok hcs
  exact ⟨k, lowest, higher, hlowest, hhigher, rfl⟩

theorem readSum_of_not_joinsTail (h : s.Scaled es) (hjoin : s.descriptor.joinsTail = false) :
    s.readSum sub n f = .sum <$> s.chunks sub f n := by
  obtain ⟨k, hk⟩ := readSum_eq h sub f n
  rw [hk, funext (conjoin_of_not_joinsTail hjoin k)]

theorem chunks_eq_nil_iff :
    s.chunks sub f n = .ok [] ↔ n % 100 = 0 ∧ ∀ r ∈ s.rungs, r.step.count n = 0 := by
  constructor
  · intro h
    obtain ⟨lowest, higher, hlowest, hhigher, hnil⟩ := chunks_eq_ok h
    obtain ⟨rfl, rfl⟩ := List.append_eq_nil_iff.1 hnil.symm
    refine ⟨?_, count_eq_zero_of_chunksOver hhigher⟩
    rcases tailChunks_eq_ok hlowest with ⟨h0, -⟩ | ⟨-, r, -, hr⟩
    · exact h0
    · cases hr
  · rintro ⟨htail, hcount⟩
    unfold chunks
    rw [tailChunks_eq_nil htail, chunksOver_eq_nil hcount]
    rfl

/-- From the top: the chunks of what lies below a rung, and the chunk of the rung. -/
theorem chunks_eq_append {low high : List Rung} {top : Rung} (hrungs : s.rungs = low ++ top :: high)
    (hlow : ∀ r ∈ low, Step.Below r.step top.step) (hhigh : ∀ r ∈ high, n < r.step.threshold)
    (hpos : 0 < top.step.threshold) (hdvd : 100 ∣ top.step.threshold)
    (hcount : top.step.count n ≠ 0) :
    s.chunks sub f n = (do
      let lower ← s.chunks sub f (n % top.step.threshold)
      let c ← s.rungChunk sub f n top
      .ok (lower ++ [c])) := by
  have htail : n % top.step.threshold % 100 = n % 100 := Nat.mod_mod_of_dvd n hdvd
  have hrest_lt := Nat.mod_lt n hpos
  have hrest_le := Nat.mod_le n top.step.threshold
  -- Below the top rung the rest counts as the number does, and from it on it counts nothing.
  have hbelow : s.chunksOver sub f (n % top.step.threshold) low = s.chunksOver sub f n low :=
    chunksOver_congr htail fun r hr => (hlow r hr).count_mod n
  have habove : s.chunksOver sub f (n % top.step.threshold) (top :: high) = .ok [] := by
    apply chunksOver_eq_nil
    intro r hr
    rcases List.mem_cons.1 hr with rfl | hr
    · exact Step.count_of_lt hrest_lt
    · exact Step.count_of_lt (Nat.lt_of_le_of_lt hrest_le (hhigh r hr))
  have hover : s.chunksOver sub f n high = .ok [] :=
    chunksOver_eq_nil fun r hr => Step.count_of_lt (hhigh r hr)
  unfold chunks
  rw [hrungs, chunksOver_append, chunksOver_append, hbelow, habove, chunksOver_cons hcount, hover,
    tailChunks, tailChunks, htail]
  cases (if n % 100 = 0 then .ok [] else _ : Except SpellFault (List Chunk)) with
  | error fault => rfl
  | ok lowest =>
    cases s.chunksOver sub f n low with
    | error fault => rfl
    | ok lower =>
      cases s.rungChunk sub f n top with
      | error fault => rfl
      | ok c =>
        show Except.ok (lowest ++ (lower ++ [c])) = Except.ok (lowest ++ (lower ++ []) ++ [c])
        rw [List.append_nil, List.append_assoc]

end Speller
end NumberWords
