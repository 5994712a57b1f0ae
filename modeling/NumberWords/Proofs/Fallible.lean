import Mathlib.Data.List.Forall2

/-!
Computations that may fail, and lists of them run in order.

The first failure is the failure of the whole, so two walks over a list that agree part by part
agree in their failures too.
-/

namespace NumberWords
namespace Fallible

variable {ε α β : Type}

theorem bind_eq_ok {x : Except ε α} {g : α → Except ε β} {b : β} :
    x >>= g = .ok b ↔ ∃ a, x = .ok a ∧ g a = .ok b := by
  cases x with
  | error e => simp [bind, Except.bind]
  | ok a => simp [bind, Except.bind]

theorem bind_eq_error {x : Except ε α} {g : α → Except ε β} {e : ε} :
    x >>= g = .error e ↔ x = .error e ∨ ∃ a, x = .ok a ∧ g a = .error e := by
  cases x with
  | error e' => simp [bind, Except.bind]
  | ok a => simp [bind, Except.bind]

theorem map_eq_ok {g : α → β} {x : Except ε α} {b : β} :
    g <$> x = .ok b ↔ ∃ a, x = .ok a ∧ g a = b := by
  cases x with
  | error e => simp [Functor.map, Except.map]
  | ok a => simp [Functor.map, Except.map]

theorem map_eq_error {g : α → β} {x : Except ε α} {e : ε} :
    g <$> x = .error e ↔ x = .error e := by
  cases x with
  | error e' => simp [Functor.map, Except.map]
  | ok a => simp [Functor.map, Except.map]

theorem mapError_eq_ok {ε' : Type} {g : ε → ε'} {x : Except ε α} {a : α} :
    x.mapError g = .ok a ↔ x = .ok a := by
  cases x with
  | error e => simp [Except.mapError]
  | ok a' => simp [Except.mapError]

theorem toOption_eq_some {x : Except ε α} {a : α} : x.toOption = some a ↔ x = .ok a := by
  cases x with
  | error e => simp [Except.toOption]
  | ok a' => simp [Except.toOption]

theorem mapError_injective {ε' : Type} {g : ε → ε'} (hg : ∀ e e', g e = g e' → e = e')
    {x y : Except ε α} (h : x.mapError g = y.mapError g) : x = y := by
  cases x with
  | error e =>
    cases y with
    | error e' => rw [hg e e' (Except.error.inj h)]
    | ok b => cases h
  | ok a =>
    cases y with
    | error e' => cases h
    | ok b => rw [Except.ok.inj h]

/-- What comes after a check comes to a result only if nothing is found. -/
theorem ite_error_eq_ok {c : Prop} [Decidable c] {e : ε} {x : Except ε α} {a : α} :
    (if c then .error e else x) = .ok a ↔ ¬ c ∧ x = .ok a := by
  by_cases hc : c
  · simp [hc]
  · simp [hc]

/-- Parts that agree on every element of a list give walks that agree. -/
theorem mapM_congr {l : List α} {g h : α → Except ε β} (hgh : ∀ a ∈ l, g a = h a) :
    l.mapM g = l.mapM h := by
  induction l with
  | nil => rfl
  | cons a l ih =>
    rw [List.mapM_cons, List.mapM_cons, hgh a List.mem_cons_self,
      ih fun b hb => hgh b (List.mem_cons_of_mem a hb)]

theorem forall₂_of_mapM_eq_ok {l : List α} {g : α → Except ε β} {bs : List β}
    (h : l.mapM g = .ok bs) : List.Forall₂ (fun a b => g a = .ok b) l bs := by
  induction l generalizing bs with
  | nil =>
    cases h
    exact .nil
  | cons a l ih =>
    rw [List.mapM_cons] at h
    obtain ⟨b, hb, h⟩ := bind_eq_ok.1 h
    obtain ⟨cs, hcs, h⟩ := bind_eq_ok.1 h
    cases h
    exact .cons hb (ih hcs)

theorem exists_of_mem_mapM {l : List α} {g : α → Except ε β} {bs : List β}
    (h : l.mapM g = .ok bs) {b : β} (hb : b ∈ bs) : ∃ a ∈ l, g a = .ok b := by
  have hall := forall₂_of_mapM_eq_ok h
  clear h
  induction hall with
  | nil => cases hb
  | @cons a b' l bs hab _ ih =>
    rcases List.mem_cons.1 hb with rfl | hb
    · exact ⟨a, List.mem_cons_self, hab⟩
    · obtain ⟨a', ha', hab'⟩ := ih hb
      exact ⟨a', List.mem_cons_of_mem a ha', hab'⟩

/-- A walk in which every part comes to a result comes to their list. -/
theorem exists_mapM {l : List α} {g : α → Except ε β} {P : α → β → Prop}
    (h : ∀ a ∈ l, ∃ b, g a = .ok b ∧ P a b) :
    ∃ bs, l.mapM g = .ok bs ∧ List.Forall₂ P l bs := by
  induction l with
  | nil => exact ⟨[], rfl, .nil⟩
  | cons a l ih =>
    obtain ⟨b, hb, hab⟩ := h a List.mem_cons_self
    obtain ⟨bs, hbs, hall⟩ := ih fun a' ha' => h a' (List.mem_cons_of_mem a ha')
    refine ⟨b :: bs, ?_, .cons hab hall⟩
    rw [List.mapM_cons, hb, hbs]
    rfl

/-! ## Two computations side by side -/

/-- One computation does what another does: it fails where the other fails, with the failure that
stands for the other's, and otherwise its result is related to the other's. -/
def Mirrors {ε' β : Type} (g : ε → ε') (R : β → α → Prop) (x : Except ε' β) (y : Except ε α) :
    Prop :=
  match y with
  | .ok a => ∃ b, x = .ok b ∧ R b a
  | .error e => x = .error (g e)

section
variable {ε' α' β' : Type} {g : ε → ε'} {R : α' → α → Prop} {S : β' → β → Prop}
variable {x : Except ε' α'} {y : Except ε α}

theorem Mirrors.bind {k' : α' → Except ε' β'} {k : α → Except ε β} (h : Mirrors g R x y)
    (hk : ∀ a' a, R a' a → Mirrors g S (k' a') (k a)) : Mirrors g S (x >>= k') (y >>= k) := by
  cases y with
  | error e =>
    obtain rfl : x = .error (g e) := h
    exact rfl
  | ok a =>
    obtain ⟨a', rfl, ha⟩ := h
    exact hk a' a ha

theorem Mirrors.map {k' : α' → β'} {k : α → β} (h : Mirrors g R x y)
    (hk : ∀ a' a, R a' a → S (k' a') (k a)) : Mirrors g S (k' <$> x) (k <$> y) := by
  cases y with
  | error e =>
    obtain rfl : x = .error (g e) := h
    exact rfl
  | ok a =>
    obtain ⟨a', rfl, ha⟩ := h
    exact ⟨k' a', rfl, hk a' a ha⟩

theorem Mirrors.map_right {T : α' → β → Prop} {k : α → β} (h : Mirrors g R x y)
    (hk : ∀ a' a, R a' a → T a' (k a)) : Mirrors g T x (k <$> y) := by
  cases y with
  | error e => exact h
  | ok a =>
    obtain ⟨a', rfl, ha⟩ := h
    exact ⟨a', rfl, hk a' a ha⟩

/-- A computation that mirrors another up to a function is determined by it. -/
theorem Mirrors.eq {k : α → α'} (h : Mirrors g (fun a' a => a' = k a) x y) :
    x = (k <$> y).mapError g := by
  cases y with
  | error e => exact h
  | ok a =>
    obtain ⟨a', rfl, rfl⟩ := h
    rfl

theorem mirrors_refl {R : α → α → Prop} (hR : ∀ a, R a a) (y : Except ε α) :
    Mirrors id R y y := by
  cases y with
  | error e => exact rfl
  | ok a => exact ⟨a, rfl, hR a⟩

end

end Fallible
end NumberWords
