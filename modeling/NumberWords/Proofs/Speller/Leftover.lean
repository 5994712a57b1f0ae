import NumberWords.Proofs.Speller.Chunks
import NumberWords.Proofs.Speller.Counts

/-!
What is left over below the most significant unit.

Only counted chunks take from the number.  So what is left over is the part below the first
threshold and the units below the most significant one that were said in one word (`leftover_eq`).
Where the first threshold is one hundred, the chunks alone tell whether anything is left over, and
with it whether a conjunction is put in (`readSum_eq_conjoin`).
-/

namespace NumberWords

/-- What a chunk leaves in the number of its unit. -/
def Visit.held (v : Visit) : Nat := v.count * v.step.threshold - v.spent

def Chunk.isCounted : Chunk → Bool
  | .counted .. => true
  | _ => false

namespace Speller

open Fallible

/-- How many chunks below the most significant one took nothing from the number. -/
def uncounted (cs : List Chunk) : Nat := cs.dropLast.countP (!·.isCounted)

variable {s : Speller} {es : List Nat} {sub : Nested} {f : Frame} {tail : Bool} {n : Nat}
variable {vs low high : List Visit} {lead : Visit} {first : Step}

/-- A chunk is counted where its unit does not stand alone. -/
theorem isCounted_of_unitChunk {position count : Nat} {unit : ScaleUnit} {step : Step} {c : Chunk}
    (hc : s.unitChunk sub f tail position unit step count = .ok c) :
    c.isCounted = !unit.standsAlone count := by
  cases halone : unit.standsAlone count with
  | false =>
    rw [unitChunk_of_counted halone] at hc
    obtain ⟨phrase, -, rfl⟩ := map_eq_ok.1 hc
    rfl
  | true =>
    -- The chunk is the same where no count can be read.
    rw [unitChunk_of_standsAlone halone sub fun _ _ => .error .tooDeep] at hc
    rcases unitChunk_eq_ok hc with ⟨phrase, hphrase, -⟩ | ⟨w, rfl, -⟩
    · cases hphrase
    · rfl

/-! ## The most significant unit -/

theorem exists_lead (vs : List Visit) : (∀ v ∈ vs, v.count = 0) ∨
    ∃ low lead high, vs = low ++ lead :: high ∧ lead.count ≠ 0 ∧ ∀ v ∈ high, v.count = 0 := by
  by_cases h : ∃ v ∈ vs, v.count ≠ 0
  · obtain ⟨low, lead, high, hvs, hlead, hhigh⟩ := exists_split_last h
    exact .inr ⟨low, lead, high, hvs, hlead, fun v hv => Classical.not_not.1 (hhigh v hv)⟩
  · exact .inl fun v hv => Classical.not_not.1 fun hcount => h ⟨v, hv, hcount⟩

theorem filter_count_eq_nil (h : ∀ v ∈ vs, v.count = 0) : vs.filter (·.count != 0) = [] := by
  apply List.filter_eq_nil_iff.2
  intro v hv
  simp [h v hv]

theorem leftover_eq_zero (h : ∀ v ∈ vs, v.count = 0) : leftover n vs = 0 := by
  rw [leftover, leadThreshold?, filter_count_eq_nil h]
  rfl

theorem leadThreshold?_eq (hlead : lead.count ≠ 0) (hhigh : ∀ v ∈ high, v.count = 0) :
    leadThreshold? (low ++ lead :: high) = some lead.step.threshold := by
  have htop : (lead :: high).filter (·.count != 0) = [lead] := by
    rw [List.filter_cons_of_pos (by simpa using hlead), filter_count_eq_nil hhigh]
  rw [leadThreshold?, List.filter_append, htop, List.getLast?_concat]
  rfl

/-! ## What visits take and leave -/

theorem spent_append (vs ws : List Visit) : spent (vs ++ ws) = spent vs + spent ws := by
  induction vs with
  | nil => exact (Nat.zero_add _).symm
  | cons v vs ih =>
    rw [List.cons_append, spent, spent, ih]
    omega

theorem spent_eq_zero (h : ∀ v ∈ vs, v.count = 0) : spent vs = 0 := by
  induction vs with
  | nil => rfl
  | cons v vs ih =>
    obtain ⟨hv, hvs⟩ := List.forall_mem_cons.1 h
    have hle := spent_le v
    rw [hv, Nat.zero_mul] at hle
    rw [spent, ih hvs]
    omega

theorem spent_add_held (vs : List Visit) :
    spent vs + (vs.map Visit.held).sum = (vs.map fun v => v.count * v.step.threshold).sum := by
  induction vs with
  | nil => rfl
  | cons v vs ih =>
    have hle := spent_le v
    rw [spent, List.map_cons, List.map_cons, List.sum_cons, List.sum_cons, Visit.held]
    omega

theorem threshold_dvd_spent (v : Visit) : v.step.threshold ∣ v.spent := by
  unfold Visit.spent
  split
  · exact Nat.dvd_mul_left _ _
  · exact Nat.dvd_zero _

theorem map_step_of_visits (h : s.Scaled es) (hvs : s.visits sub f tail 0 s.units n = .ok vs) :
    vs.map (·.step) = s.scale.present := by
  have hcounts := congrArg (List.map Prod.fst) (counts_of_visits h hvs)
  simpa [Function.comp_def] using hcounts

theorem count_of_mem_visits (h : s.Scaled es) (hvs : s.visits sub f tail 0 s.units n = .ok vs) :
    ∀ v ∈ vs, v.count = v.step.count n := by
  intro v hv
  have hmem := List.mem_map_of_mem (f := fun v : Visit => (v.step, v.count)) hv
  rw [counts_of_visits h hvs] at hmem
  obtain ⟨st, -, heq⟩ := List.mem_map.1 hmem
  obtain ⟨rfl, hcount⟩ := Prod.mk.inj heq
  exact hcount.symm

/-- The units below one of them make up, with what lies below the first threshold, the part of the
number below its threshold. -/
theorem sum_low_add_mod (h : s.Scaled es) (hfirst : s.scale.step? 0 = some first)
    (hvs : s.visits sub f tail 0 s.units n = .ok (low ++ lead :: high)) :
    (low.map fun v => v.count * v.step.threshold).sum + n % first.threshold
      = n % lead.step.threshold := by
  have hladder : (low.map (·.step) ++ [lead.step]) <+: s.scale.present := by
    refine ⟨high.map (·.step), ?_⟩
    rw [← map_step_of_visits h hvs, List.map_append, List.map_cons, List.append_assoc]
    rfl
  have hchain := ScaleTable.isChain_present h.ascending
  rw [← h.steps, ← ScaleTable.present] at hchain
  have hhead : (low.map (·.step) ++ [lead.step]).head? = some first := by
    rw [← hfirst, ← h.head?_present]
    obtain ⟨rest, hrest⟩ := hladder
    rw [← hrest]
    cases low with
    | nil => rfl
    | cons v low => rfl
  have hlower := List.IsChain.prefix hchain hladder
  have hsum := ScaleTable.sum_count_add_mod n hlower hhead List.getLast?_concat
  have hlead := lead.step.count_mul_add_mod n
  have hlow : (low.map (·.step)).map (fun st => st.count n * st.threshold)
      = low.map fun v => v.count * v.step.threshold := by
    rw [List.map_map]
    apply List.map_congr_left
    intro v hv
    rw [count_of_mem_visits h hvs v (List.mem_append_left _ hv)]
    rfl
  rw [List.map_append, hlow, List.sum_append, List.map_singleton, List.sum_singleton] at hsum
  omega

/-- What is left over is what lies below the first threshold and what the lower units hold. -/
theorem leftover_eq (h : s.Scaled es) (hfirst : s.scale.step? 0 = some first)
    (hvs : s.visits sub f tail 0 s.units n = .ok (low ++ lead :: high)) (hlead : lead.count ≠ 0)
    (hhigh : ∀ v ∈ high, v.count = 0) :
    leftover n (low ++ lead :: high) = n % first.threshold + (low.map Visit.held).sum := by
  have hlow := sum_low_add_mod h hfirst hvs
  have hheld := spent_add_held low
  have hspent : spent (low ++ lead :: high) = spent low + lead.spent := by
    rw [spent_append, spent, spent_eq_zero hhigh, Nat.add_zero]
  have hpos : 0 < lead.step.threshold := by
    have hmem : lead.step ∈ s.scale.present := by
      rw [← map_step_of_visits h hvs, List.map_append, List.map_cons]
      exact List.mem_append_right _ List.mem_cons_self
    rw [← h.map_step_rungs] at hmem
    obtain ⟨r, hr, hstep⟩ := List.mem_map.1 hmem
    exact hstep ▸ h.threshold_pos hr
  have hlt := Nat.mod_lt n hpos
  have hle : lead.spent ≤ n := by
    have hcount := count_of_mem_visits h hvs lead (by simp)
    have hspent := spent_le lead
    have hmul := lead.step.count_mul_le n
    rw [hcount] at hspent
    omega
  -- The lead takes a multiple of its threshold, which is nothing modulo the threshold.
  obtain ⟨k, hk⟩ := threshold_dvd_spent lead
  have hdiv : k ≤ n / lead.step.threshold := by
    rw [Nat.le_div_iff_mul_le hpos, Nat.mul_comm]
    omega
  obtain ⟨j, hj⟩ := Nat.exists_eq_add_of_le hdiv
  have hsplit := Nat.div_add_mod n lead.step.threshold
  rw [hj, Nat.mul_add] at hsplit
  have hrest : n - spent (low ++ lead :: high)
      = lead.step.threshold * j + (n % first.threshold + (low.map Visit.held).sum) := by
    omega
  rw [leftover, leadThreshold?_eq hlead hhigh]
  show (n - spent (low ++ lead :: high)) % lead.step.threshold = _
  rw [hrest, Nat.mul_add_mod, Nat.mod_eq_of_lt (by omega)]

/-- Two numbers with the same visits leave the same over if they agree below the first threshold. -/
theorem leftover_congr (h : s.Scaled es) (hfirst : s.scale.step? 0 = some first) {m : Nat}
    (hn : s.visits sub f tail 0 s.units n = .ok vs) (hm : s.visits sub f tail 0 s.units m = .ok vs)
    (hmod : n % first.threshold = m % first.threshold) : leftover n vs = leftover m vs := by
  rcases exists_lead vs with hzero | ⟨low, lead, high, rfl, hlead, hhigh⟩
  · rw [leftover_eq_zero hzero, leftover_eq_zero hzero]
  · rw [leftover_eq h hfirst hn hlead hhigh, leftover_eq h hfirst hm hlead hhigh, hmod]

/-! ## The conjunction from the chunks -/

theorem visit_chunk_cases {position : Nat} {unit : ScaleUnit} {step : Step} {v : Visit}
    (hv : s.visit sub f tail position unit step n = .ok v) :
    v.count = 0 ∧ v.chunk = none ∨ v.count ≠ 0 ∧ ∃ c, v.chunk = some c := by
  by_cases h0 : step.count n = 0
  · rw [visit_of_zero h0] at hv
    cases hv
    exact .inl ⟨h0, rfl⟩
  · rw [visit_of_ne_zero h0] at hv
    obtain ⟨c, -, rfl⟩ := map_eq_ok.1 hv
    exact .inr ⟨h0, c, rfl⟩

theorem chunk_of_mem_visits (h : s.Scaled es) (hvs : s.visits sub f tail 0 s.units n = .ok vs) :
    ∀ v ∈ vs, 0 < v.step.threshold ∧
      (v.count = 0 ∧ v.chunk = none ∨ v.count ≠ 0 ∧ ∃ c, v.chunk = some c) := by
  intro v hv
  rw [visits_eq h] at hvs
  obtain ⟨r, hr, hvisit⟩ := exists_of_mem_mapM hvs hv
  exact ⟨(visit_eq_ok hvisit).1 ▸ h.threshold_pos hr, visit_chunk_cases hvisit⟩

theorem held_eq_zero_iff {v : Visit} (hpos : 0 < v.step.threshold)
    (hv : v.count = 0 ∧ v.chunk = none ∨ v.count ≠ 0 ∧ ∃ c, v.chunk = some c) :
    v.held = 0 ↔ ∀ c ∈ v.chunk, c.isCounted = true := by
  unfold Visit.held Visit.spent
  rcases hv with ⟨hcount, hchunk⟩ | ⟨hcount, c, hchunk⟩
  · simp [hcount, hchunk]
  · have hmul : v.count * v.step.threshold ≠ 0 := Nat.mul_ne_zero hcount (Nat.ne_of_gt hpos)
    rw [hchunk]
    cases c <;> simp [Chunk.isCounted] <;> omega

theorem sum_held_eq_zero_iff (hvs : ∀ v ∈ vs, 0 < v.step.threshold ∧
      (v.count = 0 ∧ v.chunk = none ∨ v.count ≠ 0 ∧ ∃ c, v.chunk = some c)) :
    (vs.map Visit.held).sum = 0 ↔ ∀ c ∈ vs.filterMap (·.chunk), c.isCounted = true := by
  induction vs with
  | nil => simp
  | cons v vs ih =>
    obtain ⟨hv, hvs⟩ := List.forall_mem_cons.1 hvs
    rw [List.map_cons, List.sum_cons, Nat.add_eq_zero_iff, held_eq_zero_iff hv.1 hv.2, ih hvs]
    cases hchunk : v.chunk with
    | none => simp [hchunk]
    | some c => simp [hchunk]

theorem filterMap_chunk_eq_nil (hvs : ∀ v ∈ vs, 0 < v.step.threshold ∧
      (v.count = 0 ∧ v.chunk = none ∨ v.count ≠ 0 ∧ ∃ c, v.chunk = some c))
    (h : ∀ v ∈ vs, v.count = 0) : vs.filterMap (·.chunk) = [] := by
  refine List.filterMap_eq_nil_iff.2 fun v hv => ?_
  rcases (hvs v hv).2 with ⟨-, hchunk⟩ | ⟨hcount, -⟩
  · exact hchunk
  · exact absurd (h v hv) hcount

/-- Nothing is left over exactly when there is no tail and all lower units are counted. -/
theorem leftover_eq_zero_iff (h : s.Scaled es)
    (hfirst : (s.scale.step? 0).map (·.threshold) = some 100) {lowest : List Chunk}
    (hlowest : s.tailChunks sub n f = .ok lowest)
    (hvs : s.visits sub f tail 0 s.units n = .ok vs) :
    leftover n vs = 0 ↔ uncounted (lowest ++ vs.filterMap (·.chunk)) = 0 := by
  obtain ⟨first, hstep, hhundred⟩ := Option.map_eq_some_iff.1 hfirst
  have hchunks := chunk_of_mem_visits h hvs
  have htail := tailChunks_eq_ok hlowest
  rcases exists_lead vs with hzero | ⟨low, lead, high, rfl, hlead, hhigh⟩
  · rw [leftover_eq_zero hzero, filterMap_chunk_eq_nil hchunks hzero, List.append_nil]
    rcases htail with ⟨-, rfl⟩ | ⟨-, r, -, rfl⟩ <;> simp [uncounted]
  · obtain ⟨c, hc⟩ := ((hchunks lead (by simp)).2.resolve_left fun h0 => hlead h0.1).2
    have hhighchunks := filterMap_chunk_eq_nil
      (fun v hv => hchunks v (List.mem_append_right _ (List.mem_cons_of_mem _ hv))) hhigh
    have hlist : lowest ++ (low ++ lead :: high).filterMap (·.chunk)
        = lowest ++ low.filterMap (·.chunk) ++ [c] := by
      rw [List.filterMap_append, List.filterMap_cons_some hc, hhighchunks, List.append_assoc]
    rw [leftover_eq h hstep hvs hlead hhigh, hhundred, Nat.add_eq_zero_iff,
      sum_held_eq_zero_iff fun v hv => hchunks v (List.mem_append_left _ hv), hlist, uncounted,
      List.dropLast_concat, List.countP_append, Nat.add_eq_zero_iff]
    refine and_congr ?_ (by simp [List.countP_eq_zero])
    rcases htail with ⟨h0, rfl⟩ | ⟨h0, r, -, rfl⟩ <;> simp [h0, Chunk.isCounted]

theorem conjoin_congr {k k' : Nat} (h : k = 0 ↔ k' = 0) (cs : List Chunk) :
    s.conjoin k cs = s.conjoin k' cs := by
  have hne : (k != 0) = (k' != 0) := by
    rw [Bool.eq_iff_iff, bne_iff_ne, bne_iff_ne, ne_eq, ne_eq, h]
  cases cs with
  | nil => rfl
  | cons lowest higher => simp only [conjoin, hne]

theorem conjoin_zero (cs : List Chunk) : s.conjoin 0 cs = cs := by
  cases cs with
  | nil => rfl
  | cons lowest higher => simp [conjoin]

/-- A sum is its chunks, with a conjunction if a chunk below the most significant one took nothing
from the number. -/
theorem readSum_eq_conjoin (h : s.Scaled es)
    (hfirst : (s.scale.step? 0).map (·.threshold) = some 100) :
    s.readSum sub n f = (fun cs => .sum (s.conjoin (uncounted cs) cs)) <$> s.chunks sub f n := by
  unfold readSum chunks chunksOver
  rw [← visits_eq h]
  cases hlowest : s.tailChunks sub n f with
  | error fault => rfl
  | ok lowest =>
    cases hvs : s.visits sub f (n % 100 != 0) 0 s.units n with
    | error fault => rfl
    | ok vs =>
      have hcongr := conjoin_congr (s := s) (leftover_eq_zero_iff h hfirst hlowest hvs)
        (lowest ++ vs.filterMap (·.chunk))
      exact congrArg (fun cs => Except.ok (Reading.sum cs)) hcongr

end Speller
end NumberWords
