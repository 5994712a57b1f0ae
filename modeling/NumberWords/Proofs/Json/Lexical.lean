import NumberWords.Json.Lexical
import NumberWords.Json.Printer
import NumberWords.Proofs.Fallible

/-!
The words of a JSON text read back: strings with their escapes, and natural numbers.

A reader gives back what was written and leaves the rest of the text.  A string ends at its quote,
so anything may follow it; a number goes on as long as it can, so what follows must end it.
-/

namespace NumberWords
namespace Json

/-! ## Strings -/

theorem hexDigit?_digitChar {k : Nat} (hk : k < 16) : hexDigit? k.digitChar = some k := by
  have h : ∀ k : Fin 16, hexDigit? (Nat.digitChar k) = some k.val := by decide
  exact h ⟨k, hk⟩

theorem hexUnit_control {k : Nat} (hk : k < 32) (rest : List Char) :
    hexUnit ('0' :: '0' :: Nat.digitChar (k / 16) :: Nat.digitChar (k % 16) :: rest)
      = .ok (k, rest) := by
  have hzero : hexDigit? '0' = some 0 := by decide
  simp only [hexUnit, hzero, hexDigit?_digitChar (show k / 16 < 16 by omega),
    hexDigit?_digitChar (show k % 16 < 16 by omega)]
  congr 2
  omega

theorem escapedUnit_control {c : Char} (hc : c < ' ') (rest : List Char) :
    escapedUnit ('0' :: '0' :: Nat.digitChar (c.toNat / 16) :: Nat.digitChar (c.toNat % 16) :: rest)
      = .ok (c, rest) := by
  have hlt : c.toNat < 32 := hc
  have hhigh : isHighSurrogate c.toNat = false := by
    simp only [isHighSurrogate, Bool.and_eq_false_iff, decide_eq_false_iff_not]
    omega
  have hlow : isLowSurrogate c.toNat = false := by
    simp only [isLowSurrogate, Bool.and_eq_false_iff, decide_eq_false_iff_not]
    omega
  simp [escapedUnit, hexUnit_control hlt, hhigh, hlow, bind, Except.bind]

/-- What a character is written as: itself, a letter after a backslash, or its number. -/
theorem escapeChar_cases (c : Char) :
    (escapeChar c = [c] ∧ c ≠ '"' ∧ c ≠ '\\' ∧ ¬ c < ' ')
      ∨ (∃ e, escapeChar c = ['\\', e] ∧ escapeLetter? e = some c)
      ∨ (c < ' ' ∧ escapeChar c
        = ['\\', 'u', '0', '0', Nat.digitChar (c.toNat / 16), Nat.digitChar (c.toNat % 16)]) := by
  unfold escapeChar
  split
  · next h =>
    simp only [Bool.or_eq_true, decide_eq_true_eq] at h
    exact .inr (.inl ⟨c, rfl, by simp [escapeLetter?, h]⟩)
  next hquote =>
  iterate 5
    split
    · next h => exact .inr (.inl ⟨_, rfl, h ▸ rfl⟩)
  split
  · next hc => exact .inr (.inr ⟨hc, rfl⟩)
  · next hc =>
    simp only [Bool.or_eq_true, decide_eq_true_eq, not_or] at hquote
    exact .inl ⟨rfl, hquote.1, hquote.2, hc⟩

theorem stringChar_escapeChar (c : Char) (rest : List Char) :
    stringChar (escapeChar c ++ rest) = .ok (c, rest) := by
  rcases escapeChar_cases c with ⟨h, hquote, hback, hc⟩ | ⟨e, h, he⟩ | ⟨hc, h⟩
  · simp [h, stringChar, hback, hc]
  · simp [h, stringChar, he]
  · have hu : escapeLetter? 'u' = none := by decide
    simp [h, stringChar, hu, escapedUnit_control hc]

theorem escapeChar_head (c : Char) : ∃ d ds, escapeChar c = d :: ds ∧ d ≠ '"' := by
  rcases escapeChar_cases c with ⟨h, hquote, -⟩ | ⟨e, h, -⟩ | ⟨-, h⟩
  · exact ⟨c, [], h, hquote⟩
  · exact ⟨_, _, h, by decide⟩
  · exact ⟨_, _, h, by decide⟩

theorem stringChars_escape (s : List Char) {steps : Nat} (hsteps : s.length < steps)
    (rest : List Char) :
    stringChars steps (s.flatMap escapeChar ++ '"' :: rest) = .ok (s, rest) := by
  induction s generalizing steps with
  | nil =>
    obtain ⟨steps, rfl⟩ : ∃ k, steps = k + 1 := ⟨steps - 1, by omega⟩
    rfl
  | cons c s ih =>
    obtain ⟨steps, rfl⟩ : ∃ k, steps = k + 1 := ⟨steps - 1, by omega⟩
    obtain ⟨d, ds, hd, hquote⟩ := escapeChar_head c
    have hstep := stringChar_escapeChar c (s.flatMap escapeChar ++ '"' :: rest)
    have hlast : stringChars steps (s.flatMap escapeChar ++ '"' :: rest) = .ok (s, rest) :=
      ih (by simpa using hsteps)
    simp only [List.flatMap_cons, hd, List.append_assoc, List.cons_append] at hstep ⊢
    simp [stringChars, hquote, hstep, hlast, bind, Except.bind]

theorem length_le_escape (s : List Char) : s.length ≤ (s.flatMap escapeChar).length := by
  induction s with
  | nil => exact Nat.le_refl 0
  | cons c s ih =>
    obtain ⟨d, ds, hd, -⟩ := escapeChar_head c
    simp only [List.flatMap_cons, hd, List.length_append, List.length_cons]
    omega

theorem string_escape (s : String) (rest : List Char) :
    string (s.toList.flatMap escapeChar ++ '"' :: rest) = .ok (s, rest) := by
  have hlength := length_le_escape s.toList
  rw [string, stringChars_escape s.toList (by rw [List.length_append]; omega)]
  simp [bind, Except.bind]

/-! ## Natural numbers -/

/-- What may follow a number: nothing that would go on with it. -/
def Ends (rest : List Char) : Prop :=
  ∀ c ∈ rest.head?, c.isDigit = false ∧ c ≠ '.' ∧ c ≠ 'e' ∧ c ≠ 'E'

theorem ends_nil : Ends [] := by
  rintro c ⟨⟩

theorem ends_quote (rest : List Char) : Ends ('"' :: rest) := by
  rintro c ⟨⟩
  decide

variable {rest : List Char}

theorem Ends.dropWhile (h : Ends rest) : rest.dropWhile Char.isDigit = rest := by
  cases rest with
  | nil => rfl
  | cons c rest => exact List.dropWhile_cons_of_neg (by simp [(h c rfl).1])

theorem Ends.takeWhile (h : Ends rest) : rest.takeWhile Char.isDigit = [] := by
  cases rest with
  | nil => rfl
  | cons c rest => exact List.takeWhile_cons_of_neg (by simp [(h c rfl).1])

theorem Ends.fractionDigits (h : Ends rest) : fractionDigits rest = .ok (none, rest) := by
  cases rest with
  | nil => rfl
  | cons c rest => simp [Json.fractionDigits, (h c rfl).2.1]

theorem Ends.exponent (h : Ends rest) : exponent rest = .ok (none, rest) := by
  cases rest with
  | nil => rfl
  | cons c rest => simp [Json.exponent, (h c rfl).2.2]

theorem le_ofDigitChars (cs : List Char) (n : Nat) : n ≤ Nat.ofDigitChars 10 cs n := by
  rw [Nat.ofDigitChars_eq_ofDigitChars_zero]
  have := Nat.le_mul_of_pos_left n (Nat.pow_pos (n := cs.length) (show 0 < 10 by decide))
  omega

theorem appendDigits_eq {cs : List Char} {n : Nat} (h : Nat.ofDigitChars 10 cs n < UInt64.size) :
    appendDigits n cs = (Nat.ofDigitChars 10 cs n, []) := by
  induction cs generalizing n with
  | nil => rfl
  | cons c cs ih =>
    rw [Nat.ofDigitChars_cons] at h ⊢
    have hlt : 10 * n + digitValue c < UInt64.size := Nat.lt_of_le_of_lt (le_ofDigitChars cs _) h
    simp only [appendDigits, hlt, if_true]
    exact ih h

theorem all_isDigit_toDigits (n : Nat) : ∀ c ∈ Nat.toDigits 10 n, c.isDigit = true :=
  fun _ => Nat.isDigit_of_mem_toDigits (by decide) (by decide)

theorem exists_toDigits (n : Nat) : ∃ d ds, Nat.toDigits 10 n = d :: ds ∧ d.isDigit = true := by
  cases h : Nat.toDigits 10 n with
  | nil => exact absurd h Nat.toDigits_ne_nil
  | cons d ds => exact ⟨d, ds, rfl, all_isDigit_toDigits n d (by simp [h])⟩

theorem head?_toDigits {n : Nat} (hn : 0 < n) : (Nat.toDigits 10 n).head? ≠ some '0' := by
  induction n using Nat.strongRecOn with
  | ind n ih =>
    by_cases hlt : n < 10
    · have hne : n ≠ 0 := by omega
      simp [Nat.toDigits_of_lt_base hlt, hne]
    · have htens := ih (n / 10) (by omega) (by omega)
      obtain ⟨d, ds, hd, -⟩ := exists_toDigits (n / 10)
      rw [hd] at htens
      rw [Nat.toDigits_of_base_le (by decide) (by omega), hd]
      exact htens

theorem digits_eq_ok {cs ds : List Char} (h : digits cs = .ok (ds, rest)) :
    ds = cs.takeWhile Char.isDigit ∧ rest = cs.dropWhile Char.isDigit := by
  cases cs with
  | nil => cases h
  | cons c cs =>
    rw [digits] at h
    split at h
    · cases h
      exact ⟨rfl, rfl⟩
    · cases h

theorem wholeDigits_eq_ok {cs ds : List Char} (h : wholeDigits cs = .ok (ds, rest)) :
    digits cs = .ok (ds, rest) := by
  obtain ⟨⟨ds', left⟩, hdigits, h⟩ := Fallible.bind_eq_ok.1 h
  dsimp only at h
  split at h
  · cases h
  · cases h
    exact hdigits

theorem digits_toDigits (n : Nat) (h : Ends rest) :
    digits (Nat.toDigits 10 n ++ rest) = .ok (Nat.toDigits 10 n, rest) := by
  obtain ⟨d, ds, hd, hdigit⟩ := exists_toDigits n
  have hall := all_isDigit_toDigits n
  have htake : (Nat.toDigits 10 n ++ rest).takeWhile Char.isDigit = Nat.toDigits 10 n := by
    rw [List.takeWhile_append_of_pos hall, h.takeWhile, List.append_nil]
  have hdrop : (Nat.toDigits 10 n ++ rest).dropWhile Char.isDigit = rest := by
    rw [List.dropWhile_append_of_pos hall, h.dropWhile]
  rw [hd] at htake hdrop ⊢
  rw [List.cons_append] at htake hdrop ⊢
  rw [digits, if_pos hdigit, htake, hdrop]

theorem wholeDigits_toDigits (n : Nat) (h : Ends rest) :
    wholeDigits (Nat.toDigits 10 n ++ rest) = .ok (Nat.toDigits 10 n, rest) := by
  have hzero : ¬ ((Nat.toDigits 10 n).head? = some '0' && 1 < (Nat.toDigits 10 n).length) := by
    rcases Nat.eq_zero_or_pos n with rfl | hn
    · simp
    · simp [head?_toDigits hn]
  simp only [wholeDigits, digits_toDigits n h, bind, Except.bind]
  rw [if_neg hzero]

theorem number_toDigits (n : UInt64) (h : Ends rest) :
    number false (Nat.toDigits 10 n.toNat ++ rest) = .ok (.natural n, rest) := by
  have happend : appendDigits 0 (Nat.toDigits 10 n.toNat) = (n.toNat, []) := by
    rw [appendDigits_eq (by rw [Nat.ofDigitChars_ten_toDigits]; exact n.toNat_lt),
      Nat.ofDigitChars_ten_toDigits]
  simp [number, wholeDigits_toDigits n.toNat h, h.fractionDigits, h.exponent, numberOf?, happend,
    wholeNumber, bind, Except.bind]

/-! ## Numbers as names -/

theorem escapeChar_of_isDigit {c : Char} (hc : c.isDigit = true) : escapeChar c = [c] := by
  have hne {d : Char} (hd : d.isDigit = false) : c ≠ d := fun h => by simp [h, hd] at hc
  have hle : ¬ c < ' ' := by
    have h48 : 48 ≤ c.toNat := (Char.isDigit_iff_toNat.1 hc).1
    intro hlt
    have h32 : c.toNat < 32 := hlt
    omega
  have hquote : c ≠ '"' := hne rfl
  have hback : c ≠ '\\' := hne rfl
  have hcontrol {d : Char} (hd : d < ' ') : c ≠ d := fun h => hle (h ▸ hd)
  simp [escapeChar, hquote, hback, hle, hcontrol (d := '\x08') (by decide),
    hcontrol (d := '\x0c') (by decide), hcontrol (d := '\n') (by decide),
    hcontrol (d := '\r') (by decide), hcontrol (d := '\t') (by decide)]

theorem escape_digits {cs : List Char} (hcs : ∀ c ∈ cs, c.isDigit = true) :
    cs.flatMap escapeChar = cs := by
  induction cs with
  | nil => rfl
  | cons c cs ih =>
    rw [List.flatMap_cons, escapeChar_of_isDigit (hcs c List.mem_cons_self),
      ih fun c hc => hcs c (List.mem_cons_of_mem _ hc), List.singleton_append]

theorem escape_toString (n : Nat) :
    (toString n).toList.flatMap escapeChar = Nat.toDigits 10 n := by
  have hlist : (toString n).toList = Nat.toDigits 10 n := Nat.toList_repr
  rw [hlist, escape_digits (all_isDigit_toDigits n)]

end Json
end NumberWords
