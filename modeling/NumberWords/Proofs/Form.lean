import Mathlib.Tactic.SplitIfs
import NumberWords.Unit

/-!
The form of a unit beside a count.

Each form has a rule for the counts it stands beside (`Suits`).  A form applies where its rule holds
and the unit has a word for it (`Applies`), and the first that applies is taken, in the order
singular, dual, few, plural.  A unit therefore never takes a form it has no word for, and the
singular stands in for another form only in the choice of the form, never in the choice of its word.
-/

namespace NumberWords

/-- Greater counts than 64 bits hold are in no list. -/
theorem listed_of_size_le {count : Nat} (h : UInt64.size ≤ count) (counts : List UInt64) :
    listed counts count = false := by
  rw [listed, List.any_eq_false]
  intro c _ hc
  have hlt := c.toNat_lt_size
  rw [beq_iff_eq] at hc
  omega

def Form.rank : Form → Nat
  | .singular => 0
  | .dual => 1
  | .few => 2
  | .plural => 3

namespace InflectedUnit

variable (u : InflectedUnit) (count : Nat) (tail : Bool)

/-- What a unit gives for a form, be it empty. -/
def given? : Form → Option String
  | .singular => some u.singular
  | .dual => u.dual
  | .few => u.few
  | .plural => u.plural

/-- A unit has a form that it gives a word for.  Only the word of the singular may be empty. -/
def Has (f : Form) : Prop := ∃ w, u.given? f = some w ∧ (f = .singular ∨ w ≠ "")

/-- The ending rules are for the counts that are not listed as their exceptions. -/
def FollowsEnding : Prop := listed u.endingExceptions count = false

/-- The rule of each form, taken alone. -/
def Suits : Form → Prop
  | .singular =>
    count = 1 ∨ (u.singularEnding = true ∧ count % 10 = 1 ∧ u.FollowsEnding count)
  | .dual => count = 2
  | .few =>
    (2 ≤ count ∧ count ≤ 4) ∨
      (u.fewEnding = true ∧ 2 ≤ count % 10 ∧ count % 10 ≤ 4 ∧ u.FollowsEnding count)
  | .plural =>
    ¬ (u.pluralUpToTen = true ∧ 10 < count) ∧ ¬ (u.singularBeforeTail = true ∧ tail = true)

def Applies (f : Form) : Prop := u.Has f ∧ u.Suits count tail f

variable {u count tail}

theorem form?_eq_some_iff {f : Form} {w : String} :
    u.form? f = some w ↔ u.given? f = some w ∧ (f = .singular ∨ w ≠ "") := by
  cases f <;> simp [form?, given?, Option.filter_eq_some_iff]

theorem isSome_form?_iff {f : Form} : (u.form? f).isSome = true ↔ u.Has f := by
  simp only [Option.isSome_iff_exists, form?_eq_some_iff, Has]

theorem has_singular : u.Has .singular := ⟨u.singular, rfl, .inl rfl⟩

/-- The forms are tried in their order, and a count that suits none takes the singular. -/
theorem selectForm_eq_ite [∀ f, Decidable (u.Applies count tail f)] :
    u.selectForm count tail =
      if u.Applies count tail .singular then .singular
      else if u.Applies count tail .dual then .dual
      else if u.Applies count tail .few then .few
      else if u.Applies count tail .plural then .plural
      else .singular := by
  have hsingular : u.Applies count tail .singular ↔
      count = 1 ∨ (u.singularEnding = true ∧ count % 10 = 1 ∧ u.FollowsEnding count) :=
    and_iff_right has_singular
  have hdual : u.Applies count tail .dual ↔ count = 2 ∧ (u.form? .dual).isSome = true := by
    rw [Applies, and_comm, isSome_form?_iff, Suits]
  have hfew : u.Applies count tail .few ↔ (u.form? .few).isSome = true ∧
      ((2 ≤ count ∧ count ≤ 4) ∨
        (u.fewEnding = true ∧ 2 ≤ count % 10 ∧ count % 10 ≤ 4 ∧ u.FollowsEnding count)) := by
    rw [Applies, isSome_form?_iff, Suits]
  have htail : ¬ (u.singularBeforeTail = true ∧ tail = true) ↔
      (u.singularBeforeTail = false ∨ tail = false) := by
    rw [← Bool.and_eq_true_iff, Bool.not_eq_true, Bool.and_eq_false_iff]
  have hplural : u.Applies count tail .plural ↔ ¬ (u.pluralUpToTen = true ∧ 10 < count) ∧
      (u.form? .plural).isSome = true ∧ (u.singularBeforeTail = false ∨ tail = false) := by
    rw [Applies, isSome_form?_iff, Suits, and_left_comm, htail]
  -- The rule of the plural is tested in two places: above ten, and then for a tail.
  by_cases hten : u.pluralUpToTen = true ∧ 10 < count
  · simp [selectForm, hsingular, hdual, hfew, hplural, hten, FollowsEnding, and_assoc]
  · simp [selectForm, hsingular, hdual, hfew, hplural, hten, FollowsEnding, and_assoc]

/-- A form other than the singular is taken where it applies and none before it does. -/
theorem selectForm_eq_iff {f : Form} (hf : f ≠ .singular) :
    u.selectForm count tail = f ↔
      u.Applies count tail f ∧ ∀ g : Form, g.rank < f.rank → ¬ u.Applies count tail g := by
  classical
  rw [selectForm_eq_ite]
  constructor
  · intro h
    split_ifs at h with hsingular hdual hfew hplural
    · exact absurd h.symm hf
    · subst h
      refine ⟨hdual, fun g hg => ?_⟩
      cases g with
      | singular => exact hsingular
      | dual | few | plural => exact absurd hg (by decide)
    · subst h
      refine ⟨hfew, fun g hg => ?_⟩
      cases g with
      | singular => exact hsingular
      | dual => exact hdual
      | few | plural => exact absurd hg (by decide)
    · subst h
      refine ⟨hplural, fun g hg => ?_⟩
      cases g with
      | singular => exact hsingular
      | dual => exact hdual
      | few => exact hfew
      | plural => exact absurd hg (by decide)
    · exact absurd h.symm hf
  · rintro ⟨happlies, hfirst⟩
    cases f with
    | singular => exact absurd rfl hf
    | dual => rw [if_neg (hfirst .singular (by decide)), if_pos happlies]
    | few =>
      rw [if_neg (hfirst .singular (by decide)), if_neg (hfirst .dual (by decide)),
        if_pos happlies]
    | plural =>
      rw [if_neg (hfirst .singular (by decide)), if_neg (hfirst .dual (by decide)),
        if_neg (hfirst .few (by decide)), if_pos happlies]

/-- The unit has the form that is selected. -/
theorem has_selectForm (u : InflectedUnit) (count : Nat) (tail : Bool) :
    u.Has (u.selectForm count tail) := by
  by_cases hf : u.selectForm count tail = .singular
  · rw [hf]
    exact has_singular
  · exact ((selectForm_eq_iff hf).1 rfl).1.1

/-- Beside every count a unit takes the first of its forms that suits the count, and of that form
its own word: the singular is never put in place of a word that is missing or empty. -/
theorem selects_first_form (u : InflectedUnit) (count : Nat) (tail : Bool) :
    (∃ w, u.given? (u.selectForm count tail) = some w ∧
      (u.selectForm count tail = .singular ∨ w ≠ "") ∧
      (ScaleUnit.inflected u).wordFor count tail = w) ∧
    (∀ f : Form, f ≠ .singular →
      (u.selectForm count tail = f ↔
        u.Applies count tail f ∧ ∀ g : Form, g.rank < f.rank → ¬ u.Applies count tail g)) ∧
    (UInt64.size ≤ count → ∀ counts, listed counts count = false) := by
  refine ⟨?_, fun f => selectForm_eq_iff, listed_of_size_le⟩
  obtain ⟨w, hw⟩ := has_selectForm u count tail
  refine ⟨w, hw.1, hw.2, ?_⟩
  rw [ScaleUnit.wordFor, form, form?_eq_some_iff.2 hw, Option.getD_some]

def fourForms : InflectedUnit :=
  { singular := "tisoč-ena"
    plural := some "tisoč"
    few := some "tisoči"
    dual := some "tisoča"
    singularEnding := true
    fewEnding := true
    endingExceptions := [11, 12, 13, 14, 111, 112, 113, 114] }

/-- A listed count takes the plural for all that it ends in two.  A count of more than 64 bits takes
the few form by its last digit, though its last 64 bits are those of a listed one. -/
theorem forms_of_two_at_end :
    let count := 5 * UInt64.size + 12
    (fourForms.selectForm 112 false = .plural ∧ fourForms.Applies 112 false .plural ∧
      ¬ fourForms.Applies 112 false .few) ∧
    (fourForms.selectForm count false = .few ∧ fourForms.Applies count false .few) ∧
    UInt64.size ≤ count ∧ listed fourForms.endingExceptions count = false ∧
    count % UInt64.size ∈ fourForms.endingExceptions.map (·.toNat) := by
  intro count
  have hplural : fourForms.selectForm 112 false = .plural := by decide
  have hfew : fourForms.selectForm count false = .few := by decide +kernel
  have hsize : UInt64.size ≤ count := by decide +kernel
  obtain ⟨-, hlow, -⟩ := selects_first_form fourForms 112 false
  obtain ⟨-, hhigh, hlisted⟩ := selects_first_form fourForms count false
  have hfirst := (hlow .plural (by decide)).1 hplural
  exact ⟨⟨hplural, hfirst.1, hfirst.2 .few (by decide)⟩,
    ⟨hfew, ((hhigh .few (by decide)).1 hfew).1⟩, hsize, hlisted hsize _, by decide +kernel⟩

end InflectedUnit
end NumberWords
