import NumberWords.Proofs.Machine.Word
import NumberWords.Proofs.Scale.Ladder

/-!
Scale tables of words.

Each threshold is a checked power of ten, and the entry of a unit looks at the threshold after its
own.  Exponents that ascend give a table without a trap, with the thresholds and divisors of
`ScaleTable.stepsOf` (`table_eq`), none of which is zero.
-/

namespace NumberWords

open Fallible

structure WordStep where
  threshold : Word
  divisor : Option Word
deriving DecidableEq

namespace WordStep

def toStep (s : WordStep) : Step :=
  { threshold := s.threshold.val, divisor := s.divisor.map (·.val) }

def count (s : WordStep) (n : Word) : Run Word := do
  let quotient ← n.div s.threshold
  match s.divisor with
  | some d => quotient.rem d
  | none => .ok quotient

structure Positive (s : WordStep) : Prop where
  threshold : 0 < s.threshold.val
  divisor : ∀ d, s.divisor = some d → 0 < d.val

theorem Positive.count_gives {s : WordStep} (h : s.Positive) (n : Word) :
    (s.count n).Gives (s.toStep.count n.val) := by
  obtain ⟨quotient, hquotient, hval⟩ := Word.div_gives (a := n) h.threshold
  unfold count Step.count toStep
  rw [hquotient]
  cases hd : s.divisor with
  | none => exact ⟨quotient, rfl, hval⟩
  | some d =>
    obtain ⟨count, hcount, hmod⟩ := Word.rem_gives (a := quotient) (h.divisor d hd)
    refine ⟨count, hcount, ?_⟩
    rw [hmod, hval]
    rfl

end WordStep

namespace Machine

def lastModulus : Word := .literal 1000000

def stepAt (thresholds : List (Option Word)) (index : Nat) : Run (Option WordStep) := do
  match ← Run.elementAt thresholds index with
  | none => .ok none
  | some threshold =>
    if index = thresholds.length - 1 then .ok (some { threshold, divisor := some lastModulus })
    else match ← Run.elementAt thresholds (index + 1) with
      | none => .ok (some { threshold, divisor := none })
      | some next => do .ok (some { threshold, divisor := some (← next.div threshold) })

def table (es : List Nat) : Run (List (Option WordStep)) :=
  let thresholds := es.map Word.tenPow?
  (List.range thresholds.length).mapM (stepAt thresholds)

theorem stepAt_gives {es : List Nat} {i : Nat} (hi : i < es.length) :
    ∃ step, stepAt (es.map Word.tenPow?) i = .ok step ∧
      (ScaleTable.stepsOf es)[i]? = some (step.map (·.toStep)) := by
  have hentry : (es.map Word.tenPow?)[i]? = some (Word.tenPow? es[i]) := by simp [hi]
  have hstep : (ScaleTable.stepsOf es)[i]? = some ((tenPow? es[i]).map fun t =>
      { threshold := t, divisor := ScaleTable.divisorBelow t (es.drop (i + 1)) }) := by
    rw [ScaleTable.getElem?_stepsOf, List.getElem?_eq_getElem hi]
    rfl
  rw [hstep, ← Word.val_tenPow?]
  unfold stepAt
  rw [Run.elementAt_of_getElem? hentry]
  cases hpow : Word.tenPow? es[i] with
  | none => exact ⟨none, rfl, rfl⟩
  | some threshold =>
    have hpos : 0 < threshold.val := Word.val_pos_of_tenPow? hpow
    show ∃ step, (if i = (es.map Word.tenPow?).length - 1 then _ else _) = _ ∧ _
    rw [List.length_map]
    by_cases hlast : i = es.length - 1
    · rw [if_pos hlast, List.drop_eq_nil_of_le (by omega)]
      exact ⟨_, rfl, rfl⟩
    · have hnext : i + 1 < es.length := by omega
      have hafter : (es.map Word.tenPow?)[i + 1]? = some (Word.tenPow? es[i + 1]) := by
        simp [hnext]
      rw [if_neg hlast, Run.elementAt_of_getElem? hafter, List.drop_eq_getElem_cons hnext]
      show ∃ step, _ ∧ some (some (Step.mk threshold.val
        ((tenPow? es[i + 1]).map (· / threshold.val)))) = _
      rw [← Word.val_tenPow?]
      cases Word.tenPow? es[i + 1] with
      | none => exact ⟨_, rfl, rfl⟩
      | some next =>
        obtain ⟨quotient, hquotient, hval⟩ := Word.div_gives (a := next) hpos
        refine ⟨some { threshold, divisor := some quotient }, ?_, ?_⟩
        · show (next.div threshold >>= fun divisor =>
            Except.ok (some (WordStep.mk threshold (some divisor)))) = _
          rw [hquotient]
          rfl
        · show some (some (Step.mk threshold.val (some (next.val / threshold.val))))
            = some (some (Step.mk threshold.val (some quotient.val)))
          rw [hval]

/-- The table of ascending exponents comes without a trap, is the table of the natural numbers, and
holds no zero to divide by. -/
theorem table_eq {es : List Nat} (h : es.Pairwise (· < ·)) :
    ∃ steps, table es = .ok steps ∧
      steps.map (Option.map (·.toStep)) = ScaleTable.stepsOf es ∧
      ∀ step, some step ∈ steps → step.Positive := by
  obtain ⟨steps, htable, hall⟩ := exists_mapM (l := List.range es.length)
    (g := stepAt (es.map Word.tenPow?)) fun i hi => stepAt_gives (List.mem_range.1 hi)
  obtain ⟨hlength, hget⟩ := List.forall₂_iff_get.1 hall
  rw [List.length_range] at hlength
  have hsteps : steps.map (Option.map (·.toStep)) = ScaleTable.stepsOf es := by
    apply List.ext_getElem
    · rw [List.length_map, ScaleTable.length_stepsOf, hlength]
    · intro i hi hi'
      rw [List.length_map] at hi
      have hentry := hget i (by rw [List.length_range]; omega) hi
      simp only [List.get_eq_getElem, List.getElem_range] at hentry
      rw [List.getElem_map]
      exact (List.getElem_eq_iff hi').2 hentry |>.symm
  refine ⟨steps, ?_, hsteps, fun step hstep => ?_⟩
  · show (List.range (es.map Word.tenPow?).length).mapM (stepAt (es.map Word.tenPow?)) = _
    rw [List.length_map]
    exact htable
  · have hmem : some step.toStep ∈ ScaleTable.stepsOf es := by
      rw [← hsteps]
      exact List.mem_map_of_mem (f := Option.map (·.toStep)) hstep
    constructor
    · obtain ⟨i, hi⟩ := List.mem_iff_getElem?.1 hmem
      obtain ⟨e, -, -, hthreshold⟩ := ScaleTable.threshold_of_getElem? hi
      rw [show step.threshold.val = 10 ^ e from hthreshold]
      exact Nat.pow_pos (by decide)
    · intro d hd
      have hdivisor : step.toStep.divisor = some d.val := by
        rw [WordStep.toStep, hd]
        rfl
      exact ScaleTable.divisor_pos h hmem hdivisor

end Machine
end NumberWords
