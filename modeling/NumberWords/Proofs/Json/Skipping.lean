import NumberWords.Proofs.Json.Lexical
import NumberWords.Proofs.Json.Lockstep

/-!
Values that are passed over.

A value is passed over with less care than it is read: strings may end in half a pair of surrogates,
numbers may be beyond all bounds, and nesting has no limit.  What is read ends where it would end
when it is passed over (`agree_value`).
-/

namespace NumberWords
namespace Json

open Fallible

variable {cs r : List Char} {n : Nat}

/-! ## Strings -/

theorem expect_eq_ok {e : Char} (h : expect e cs = .ok ((), r)) : cs = e :: r := by
  cases cs with
  | nil => cases h
  | cons c rest =>
    rw [expect] at h
    split at h
    · next heq =>
      cases h
      rw [heq]
    · cases h

theorem stringChars_eq_ok {w : List Char} (h : stringChars n cs = .ok (w, r)) :
    cs = '"' :: r ∨ cs.head? ≠ some '"' ∧ ∃ m c cs₁ w', n = m + 1 ∧
      stringChar cs = .ok (c, cs₁) ∧ stringChars m cs₁ = .ok (w', r) := by
  rw [stringChars.eq_def] at h
  split at h
  · cases h
  · cases h
    exact .inl rfl
  · next m hquote =>
    obtain ⟨⟨c, cs₁⟩, hchar, h⟩ := bind_eq_ok.1 h
    obtain ⟨⟨w', cs₂⟩, hlater, h⟩ := bind_eq_ok.1 h
    cases h
    refine .inr ⟨fun hhead => ?_, m, c, cs₁, w', rfl, hchar, hlater⟩
    obtain ⟨rest, hrest⟩ := List.head?_eq_some_iff.1 hhead
    exact hquote rest hrest

/-- The character of an escaped unit takes one unit or two. -/
theorem escapedUnit_eq_ok {c : Char} (h : escapedUnit cs = .ok (c, r)) :
    ∃ high cs₁, hexUnit cs = .ok (high, cs₁) ∧
      (cs₁ = r ∨ ∃ cs₂ low, cs₁ = '\\' :: 'u' :: cs₂ ∧ hexUnit cs₂ = .ok (low, r)) := by
  obtain ⟨⟨high, cs₁⟩, hhigh, h⟩ := bind_eq_ok.1 h
  refine ⟨high, cs₁, hhigh, ?_⟩
  dsimp only at h
  split at h
  · cases h
  · split at h
    · cases h
      exact .inl rfl
    · obtain ⟨⟨⟨⟩, cs₂⟩, hslash, h⟩ := bind_eq_ok.1 h
      obtain ⟨⟨⟨⟩, cs₃⟩, hu, h⟩ := bind_eq_ok.1 h
      obtain ⟨⟨low, cs₄⟩, hlow, h⟩ := bind_eq_ok.1 h
      dsimp only at h
      split at h
      · obtain ⟨-, rfl⟩ := Prod.mk.inj (Except.ok.inj h)
        have hslash : cs₁ = '\\' :: cs₂ := expect_eq_ok hslash
        have hu : cs₂ = 'u' :: cs₃ := expect_eq_ok hu
        exact .inr ⟨cs₃, low, by rw [hslash, hu], hlow⟩
      · cases h

/-- A character of a string stands for itself or is escaped. -/
theorem stringChar_eq_ok {c : Char} (h : stringChar cs = .ok (c, r)) :
    (∃ e, cs = '\\' :: e :: r ∧ (escapeLetter? e).isSome = true) ∨
      (∃ cs₁, cs = '\\' :: 'u' :: cs₁ ∧ escapedUnit cs₁ = .ok (c, r)) ∨
      cs = c :: r ∧ c ≠ '\\' ∧ ¬ c < ' ' := by
  rw [stringChar.eq_def] at h
  split at h
  · cases h
  · cases h
  · next e rest =>
    split at h
    · next c' hletter =>
      cases h
      exact .inl ⟨e, rfl, by rw [hletter]; rfl⟩
    · split at h
      · next hu =>
        subst hu
        exact .inr (.inl ⟨rest, rfl, h⟩)
      · cases h
  · next c' rest hnil hescape =>
    split at h
    · cases h
    · next hcontrol =>
      cases h
      refine .inr (.inr ⟨rfl, ?_, hcontrol⟩)
      rintro rfl
      cases r with
      | nil => exact hnil rfl rfl
      | cons e rest => exact hescape e rest rfl rfl

theorem skipStringChars_unit {m : Nat} (h : skipStringChars m ('\\' :: 'u' :: cs) = .ok ((), r)) :
    ∃ k unit rest, hexUnit cs = .ok (unit, rest) ∧ skipStringChars k rest = .ok ((), r) := by
  cases m with
  | zero => cases h
  | succ k =>
    rw [skipStringChars] at h
    obtain ⟨⟨unit, rest⟩, hunit, h⟩ := bind_eq_ok.1 h
    exact ⟨k, unit, rest, hunit, h⟩

theorem skipStringChars_cons {c : Char} (hquote : c ≠ '"') (hslash : c ≠ '\\')
    (hcontrol : ¬ c < ' ') (k : Nat) (cs : List Char) :
    skipStringChars (k + 1) (c :: cs) = skipStringChars k cs := by
  rw [skipStringChars, if_neg hcontrol]
  · exact hquote
  · exact fun heq _ => hslash heq
  · exact fun _ _ heq _ => hslash heq

/-- Whoever passes over a string comes by the end of each of its characters. -/
theorem skipStringChars_of_stringChar {m : Nat} {c : Char} {cs₁ : List Char}
    (hquote : cs.head? ≠ some '"') (hchar : stringChar cs = .ok (c, cs₁))
    (h : skipStringChars m cs = .ok ((), r)) : ∃ k, skipStringChars k cs₁ = .ok ((), r) := by
  rcases stringChar_eq_ok hchar with
    ⟨e, rfl, hletter⟩ | ⟨cs₂, rfl, hunit⟩ | ⟨rfl, hslash, hcontrol⟩
  · cases m with
    | zero => cases h
    | succ k =>
      rw [skipStringChars, if_pos hletter] at h
      exact ⟨k, h⟩
  · obtain ⟨k, unit, rest, hskip, h⟩ := skipStringChars_unit h
    obtain ⟨high, cs₃, hhigh, hend⟩ := escapedUnit_eq_ok hunit
    cases hskip.symm.trans hhigh
    rcases hend with rfl | ⟨cs₄, low, rfl, hlow⟩
    · exact ⟨k, h⟩
    · obtain ⟨k, unit, rest, hskip, h⟩ := skipStringChars_unit h
      cases hskip.symm.trans hlow
      exact ⟨k, h⟩
  · cases m with
    | zero => cases h
    | succ k =>
      have hne : c ≠ '"' := fun heq => hquote (by rw [heq]; rfl)
      rw [skipStringChars_cons hne hslash hcontrol] at h
      exact ⟨k, h⟩

theorem agree_stringChars {m : Nat} {w : List Char} (h : stringChars n cs = .ok (w, r))
    {r' : List Char} (hskip : skipStringChars m cs = .ok ((), r')) : r = r' := by
  induction n generalizing m cs w with
  | zero => cases h
  | succ n ih =>
    rcases stringChars_eq_ok h with rfl | ⟨hquote, k, c, cs₁, w', hk, hchar, hlater⟩
    · cases m with
      | zero => cases hskip
      | succ m =>
        cases hskip
        rfl
    · obtain rfl := Nat.succ.inj hk
      obtain ⟨m', hskip⟩ := skipStringChars_of_stringChar hquote hchar hskip
      exact ih hlater hskip

theorem agree_string : Agree string skipString := by
  intro cs a r b r' hp hq
  obtain ⟨⟨w, rest⟩, hchars, hp⟩ := bind_eq_ok.1 hp
  cases hp
  exact ⟨agree_stringChars hchars hq, trivial⟩

/-! ## Numbers -/

theorem skipDigits_eq_ok (h : skipDigits cs = .ok ((), r)) : r = cs.dropWhile Char.isDigit := by
  cases cs with
  | nil => cases h
  | cons c rest =>
    rw [skipDigits] at h
    split at h
    · cases h
      rfl
    · cases h

theorem agree_digits : Agree digits skipDigits := by
  intro cs a r b r' hp hq
  exact ⟨(digits_eq_ok hp).2.trans (skipDigits_eq_ok hq).symm, trivial⟩

def skipFraction : Reader Unit
  | '.' :: cs => skipDigits cs
  | cs => .ok ((), cs)

def unsigned : List Char → List Char
  | '+' :: cs => cs
  | '-' :: cs => cs
  | cs => cs

def skipExponent : Reader Unit
  | c :: rest => if c = 'e' || c = 'E' then skipDigits (unsigned rest) else .ok ((), c :: rest)
  | [] => .ok ((), [])

theorem skipExponent_eq (cs : List Char) : skipExponent cs = match cs with
    | c :: rest =>
      if c = 'e' || c = 'E' then
        match rest with
        | '+' :: rest => skipDigits rest
        | '-' :: rest => skipDigits rest
        | rest => skipDigits rest
      else .ok ((), c :: rest)
    | [] => .ok ((), []) := by
  cases cs with
  | nil => rfl
  | cons c rest =>
    rw [skipExponent]
    dsimp only
    split
    · split
      · rfl
      · rfl
      · next hplus hminus => rw [unsigned.eq_3 _ hplus hminus]
    · rfl

theorem skipNumber_eq_ok (h : skipNumber cs = .ok ((), r)) :
    ∃ cs₁ cs₂, skipDigits cs = .ok ((), cs₁) ∧ skipFraction cs₁ = .ok ((), cs₂) ∧
      skipExponent cs₂ = .ok ((), r) := by
  obtain ⟨⟨⟨⟩, cs₁⟩, hdigits, h⟩ := bind_eq_ok.1 h
  dsimp only at h
  split at h
  · cases h
  · split at h
    · obtain ⟨⟨⟨⟩, cs₂⟩, hfraction, h⟩ := bind_eq_ok.1 h
      exact ⟨_, cs₂, hdigits, hfraction, (skipExponent_eq cs₂).trans h⟩
    · next hdot =>
      refine ⟨cs₁, cs₁, hdigits, ?_, (skipExponent_eq cs₁).trans h⟩
      rw [skipFraction]
      exact hdot

theorem agree_fraction : Agree fractionDigits skipFraction := by
  intro cs a r b r' hp hq
  rw [fractionDigits.eq_def] at hp
  split at hp
  · obtain ⟨⟨ds, rest⟩, hdigits, hp⟩ := bind_eq_ok.1 hp
    cases hp
    exact agree_digits hdigits hq
  · next hdot =>
    rw [skipFraction.eq_2 cs hdot] at hq
    cases hp
    cases hq
    exact ⟨rfl, trivial⟩

theorem exponent_eq_ok {x : Option Int} (h : exponent cs = .ok (x, r)) :
    (∃ c rest ds, cs = c :: rest ∧ (c = 'e' || c = 'E') = true ∧
      digits (unsigned rest) = .ok (ds, r)) ∨
      (∀ c rest, cs = c :: rest → ¬ (c = 'e' || c = 'E') = true) ∧ r = cs := by
  rw [exponent.eq_def] at h
  split at h
  · next c rest =>
    split at h
    · next hletter =>
      obtain ⟨⟨ds, left⟩, hdigits, h⟩ := bind_eq_ok.1 h
      cases h
      refine .inl ⟨c, rest, ds, rfl, hletter, ?_⟩
      split at hdigits
      · exact hdigits
      · exact hdigits
      · next hplus hminus =>
        rw [unsigned.eq_3 _ hplus hminus]
        exact hdigits
    · next hletter =>
      cases h
      refine .inr ⟨fun c' rest' heq => ?_, rfl⟩
      cases heq
      exact hletter
  · cases h
    refine .inr ⟨fun c rest heq => ?_, rfl⟩
    cases heq

theorem agree_exponent : Agree exponent skipExponent := by
  intro cs a r b r' hp hq
  rcases exponent_eq_ok hp with ⟨c, rest, ds, rfl, hletter, hdigits⟩ | ⟨hnone, rfl⟩
  · rw [skipExponent, if_pos hletter] at hq
    exact agree_digits hdigits hq
  · cases r with
    | nil =>
      cases hq
      exact ⟨rfl, trivial⟩
    | cons c rest =>
      rw [skipExponent, if_neg (hnone c rest rfl)] at hq
      cases hq
      exact ⟨rfl, trivial⟩

theorem agree_number (negative : Bool) : Agree (number negative) skipNumber := by
  intro cs a r b r' hp hq
  obtain ⟨⟨whole, cs₁⟩, hwhole, hp⟩ := bind_eq_ok.1 hp
  obtain ⟨⟨fraction, cs₂⟩, hfraction, hp⟩ := bind_eq_ok.1 hp
  obtain ⟨⟨exponent, cs₃⟩, hexponent, hp⟩ := bind_eq_ok.1 hp
  obtain ⟨cs₁', cs₂', hdigits, hplaces, hpower⟩ := skipNumber_eq_ok hq
  obtain ⟨rfl, -⟩ := agree_digits (wholeDigits_eq_ok hwhole) hdigits
  obtain ⟨rfl, -⟩ := agree_fraction hfraction hplaces
  obtain ⟨rfl, -⟩ := agree_exponent hexponent hpower
  dsimp only at hp
  split at hp
  · cases hp
    exact ⟨rfl, trivial⟩
  · cases hp

/-! ## Values -/

theorem skipValue_of_digit {c : Char} {rest : List Char} (hc : c.isDigit = true)
    (hcs : skipBlank cs = c :: rest) : skipValue (n + 1) cs = skipNumber (c :: rest) := by
  rw [skipValue.eq_def]
  dsimp only
  rw [hcs]
  -- A digit is none of the characters with which the other values begin.
  split <;> simp_all

def skipMember (steps : Nat) : Unit → Reader Unit := fun _ cs => do
  let ((), cs) ← skipString cs
  let ((), cs) ← colon cs
  skipValue steps cs

theorem entry_of_skipMember {u : Unit} {steps : Nat} (h : skipMember steps u cs = .ok ((), r)) :
    entry skipString (skipValue steps) cs = .ok (((), ()), r) := by
  obtain ⟨⟨⟨⟩, cs₁⟩, hname, h⟩ := bind_eq_ok.1 h
  obtain ⟨⟨⟨⟩, cs₂⟩, hcolon, h⟩ := bind_eq_ok.1 h
  exact entry_eq_ok.2 ⟨cs₁, cs₂, hname, hcolon, h⟩

theorem agree_valueWith {array object : Reader Value}
    (harray : Agree array (elements (fun _ => skipValue n) (n + 1) true ()))
    (hobject : Agree object (members (skipMember n) (n + 1) true ())) :
    Agree (valueWith array object) (skipValue (n + 1)) := by
  intro cs a r b r' hp hq
  rw [valueWith] at hp
  have hskip := skipValue.eq_def (n + 1) cs
  dsimp only at hskip
  split at hp <;> rename_i hcs <;> rw [hcs] at hskip
  · cases hp
  · exact (Agree.refl _).map (g := fun _ => Value.null) hp (hskip.symm.trans hq)
  · exact (Agree.refl _).map (g := fun _ => Value.boolean true) hp (hskip.symm.trans hq)
  · exact (Agree.refl _).map (g := fun _ => Value.boolean false) hp (hskip.symm.trans hq)
  · exact agree_string.map hp (hskip.symm.trans hq)
  · exact harray hp (hskip.symm.trans hq)
  · exact hobject hp (hskip.symm.trans hq)
  · exact (agree_number true).map hp (hskip.symm.trans hq)
  · split at hp
    · next hdigit =>
      exact (agree_number false).map hp ((skipValue_of_digit hdigit hcs).symm.trans hq)
    · cases hp

/-- Whoever reads a value and whoever passes over it leave the same rest. -/
theorem agree_value (depth steps : Nat) : Agree (value depth) (skipValue steps) := by
  induction depth generalizing steps with
  | zero =>
    cases steps with
    | zero => intro cs a r b r' hp hq; cases hq
    | succ steps =>
      exact agree_valueWith (fun _ _ _ _ _ hp => by cases hp) fun _ _ _ _ _ hp => by cases hp
  | succ depth ih =>
    cases steps with
    | zero => intro cs a r b r' hp hq; cases hq
    | succ steps =>
      refine agree_valueWith ?_ ?_
      · intro cs a r b r' hp hq
        obtain ⟨⟨items, rest⟩, hread, hp⟩ := bind_eq_ok.1 hp
        cases hp
        exact lockstep_elements (fun items _ _ => (ih steps).map (g := fun v => items ++ [v]))
          trivial hread hq
      · intro cs a r b r' hp hq
        obtain ⟨⟨entries, rest⟩, hread, hp⟩ := bind_eq_ok.1 hp
        cases hp
        refine lockstep_members (R := fun _ _ => True) (fun entries u _ => ?_) trivial hread hq
        intro cs a r b r' hp hq
        obtain ⟨m, hentry⟩ := entry_of_objectMember hp
        exact agree_entry agree_string (ih steps) hentry (entry_of_skipMember hq)

end Json
end NumberWords
