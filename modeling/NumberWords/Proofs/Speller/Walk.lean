import NumberWords.Proofs.Speller.Rungs

/-!
The walk over the units of a sum.

The walk carries what remains of the number, and only a counted chunk takes from it.  What the
chunks take lies below the next threshold, and this is the invariant (`Settled`): at every unit the
count of the remainder is the count of the whole number.  The walk is then the list of the visits
at the whole number (`visits_eq`), also where it fails.
-/

namespace NumberWords
namespace Speller

open Fallible

variable {s : Speller} {es : List Nat} {sub : Nested} {f : Frame} {tail : Bool}
variable {n position remaining : Nat} {unit : ScaleUnit} {step : Step}
variable {units rest : List (ScaleUnit × Option Step)} {v : Visit}

theorem visit_of_zero (h : step.count remaining = 0) :
    s.visit sub f tail position unit step remaining
      = .ok { step, count := step.count remaining, chunk := none } := by
  simp only [visit]
  rw [if_pos h]

theorem visit_of_ne_zero (h : step.count remaining ≠ 0) :
    s.visit sub f tail position unit step remaining =
      (fun chunk => { step, count := step.count remaining, chunk := some chunk }) <$>
        s.unitChunk sub f tail position unit step (step.count remaining) := by
  simp only [visit]
  rw [if_neg h]

theorem visit_eq_ok (h : s.visit sub f tail position unit step remaining = .ok v) :
    v.step = step ∧ v.count = step.count remaining := by
  by_cases h0 : step.count remaining = 0
  · rw [visit_of_zero h0] at h
    cases h
    exact ⟨rfl, rfl⟩
  · rw [visit_of_ne_zero h0] at h
    obtain ⟨chunk, -, rfl⟩ := map_eq_ok.1 h
    exact ⟨rfl, rfl⟩

/-- A visit depends on the remainder through its count alone. -/
theorem visit_congr (h : step.count remaining = step.count n) :
    s.visit sub f tail position unit step remaining
      = s.visit sub f tail position unit step n := by
  unfold visit
  rw [h]

theorem spent_le (v : Visit) : v.spent ≤ v.count * v.step.threshold := by
  unfold Visit.spent
  split
  · exact Nat.le_refl _
  · exact Nat.zero_le _

/-- So far the walk has taken only what lies below the threshold of the next unit. -/
structure Settled (n position : Nat) (units : List (ScaleUnit × Option Step)) (remaining : Nat) :
    Prop where
  chain : (rungsFrom position units).IsChain fun a b => Step.Leads a.step b.step
  le : remaining ≤ n
  head : ∀ r, (rungsFrom position units).head? = some r → n ≤ remaining + n % r.step.threshold

namespace Settled

theorem start (h : s.Scaled es) (n : Nat) : Settled n 0 s.units n where
  chain := h.isChain_rungs
  le := Nat.le_refl n
  head := fun _ _ => Nat.le_add_right n _

theorem count_eq (h : Settled n position ((unit, some step) :: rest) remaining) :
    step.count remaining = step.count n :=
  Step.count_eq_of_settled h.le (h.head { position, unit, step } rfl)

theorem next (h : Settled n position ((unit, some step) :: rest) remaining)
    (hv : s.visit sub f tail position unit step remaining = .ok v) :
    Settled n (position + 1) rest (remaining - v.spent) := by
  have hchain := h.chain
  have hhead : n ≤ remaining + n % step.threshold := h.head { position, unit, step } rfl
  rw [rungsFrom] at hchain
  refine { chain := hchain.of_cons, le := Nat.le_trans (Nat.sub_le _ _) h.le,
           head := fun r hr => ?_ }
  obtain ⟨rs, hrs⟩ := List.head?_eq_some_iff.1 hr
  rw [hrs] at hchain
  have hleads : step.Leads r.step := (List.isChain_cons_cons.1 hchain).1
  obtain ⟨hstep, hcount⟩ := visit_eq_ok hv
  -- At most the count goes, and with the part below this threshold it is the part below the next.
  have hspent := spent_le v
  have hsum := step.count_mul_add_mod n
  rw [hstep, hcount, h.count_eq] at hspent
  rw [hleads.within_eq] at hsum
  omega

theorem visits_eq_mapM (h : Settled n position units remaining) :
    s.visits sub f tail position units remaining =
      (rungsFrom position units).mapM fun r =>
        s.visit sub f tail r.position r.unit r.step n := by
  induction units generalizing position remaining with
  | nil => rfl
  | cons u rest ih =>
    obtain ⟨unit, step⟩ := u
    cases step with
    | none => rfl
    | some step =>
      rw [visits, rungsFrom, List.mapM_cons, ← visit_congr h.count_eq]
      cases hv : s.visit sub f tail position unit step remaining with
      | error fault => rfl
      | ok v =>
        show (do .ok (v :: (← s.visits sub f tail (position + 1) rest (remaining - v.spent)))) = _
        rw [ih (h.next hv)]
        rfl

end Settled

/-- The visits of a number, one for each rung. -/
theorem visits_eq (h : s.Scaled es) :
    s.visits sub f tail 0 s.units n =
      s.rungs.mapM fun r => s.visit sub f tail r.position r.unit r.step n :=
  (Settled.start h n).visits_eq_mapM

/-! ## The points of a walk -/

/-- The walk of a number comes to a position, with units ahead of it and so much remaining. -/
inductive Reaches (s : Speller) (sub : Nested) (f : Frame) (n : Nat) :
    Nat → List (ScaleUnit × Option Step) → Nat → Prop where
  | start : Reaches s sub f n 0 s.units n
  | next {position : Nat} {unit : ScaleUnit} {step : Step}
      {rest : List (ScaleUnit × Option Step)} {remaining : Nat} {v : Visit} :
      Reaches s sub f n position ((unit, some step) :: rest) remaining →
      s.visit sub f (n % 100 != 0) position unit step remaining = .ok v →
      Reaches s sub f n (position + 1) rest (remaining - v.spent)

namespace Reaches

theorem units_eq_drop (h : s.Reaches sub f n position units remaining) :
    units = s.units.drop position := by
  induction h with
  | start => rfl
  | @next position unit step rest remaining v _ _ ih =>
    rw [← List.drop_drop, ← ih]
    rfl

theorem settled (hs : s.Scaled es) (h : s.Reaches sub f n position units remaining) :
    Settled n position units remaining := by
  induction h with
  | start => exact Settled.start hs n
  | next _ hv ih => exact ih.next hv

end Reaches
end Speller
end NumberWords
