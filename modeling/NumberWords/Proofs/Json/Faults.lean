import NumberWords.Proofs.Json.Skipping
import NumberWords.Proofs.Json.Typed

/-!
Which fault a reader raises, and where.

Only the reader of units fails for units, and all others spare them (`SparesUnits`).  The members of
an object are read one after another, so a reader that fails at them fails at the first that it
cannot read, after the very members that the generic value has there (`exists_member_of_error`).
-/

namespace NumberWords
namespace Json

open Fallible

/-! ## Faults of units -/

/-- A computation does not fail for units. -/
def SparesUnits {α : Type} (x : Except JsonFault α) : Prop := ∀ e, x ≠ .error (.shape (.units e))

section

variable {α β σ : Type}

@[simp] theorem sparesUnits_ok (a : α) : SparesUnits (.ok a) := nofun

@[simp] theorem sparesUnits_truncated :
    SparesUnits (.error .truncated : Except JsonFault α) := nofun

@[simp] theorem sparesUnits_malformed :
    SparesUnits (.error .malformed : Except JsonFault α) := nofun

@[simp] theorem sparesUnits_field (f : FieldFault) :
    SparesUnits (.error (.shape (.field f)) : Except JsonFault α) := nofun

theorem SparesUnits.bind {x : Except JsonFault α} {k : α → Except JsonFault β}
    (hx : SparesUnits x) (hk : ∀ a, SparesUnits (k a)) : SparesUnits (x >>= k) := by
  intro e h
  rcases bind_eq_error.1 h with h | ⟨a, -, h⟩
  · exact hx e h
  · exact hk a e h

end

theorem sparesUnits_literal (es cs : List Char) : SparesUnits (literal es cs) := by
  induction es generalizing cs with
  | nil => simp [literal]
  | cons e es ih =>
    cases cs with
    | nil => simp [literal]
    | cons c cs =>
      rw [literal]
      split
      · exact ih cs
      · simp

theorem sparesUnits_expect (e : Char) (cs : List Char) : SparesUnits (expect e cs) := by
  unfold expect
  split
  · simp
  · split <;> simp

theorem sparesUnits_endOfText (cs : List Char) : SparesUnits (endOfText cs) := by
  unfold endOfText
  split <;> simp

theorem sparesUnits_colon (cs : List Char) : SparesUnits (colon cs) := sparesUnits_expect ':' _

/-! ## Strings -/

theorem sparesUnits_hexUnit (cs : List Char) : SparesUnits (hexUnit cs) := by
  unfold hexUnit
  split
  · split <;> simp
  · split <;> simp

theorem sparesUnits_escapedUnit (cs : List Char) : SparesUnits (escapedUnit cs) := by
  refine .bind (sparesUnits_hexUnit cs) fun ⟨high, cs⟩ => ?_
  dsimp only
  split
  · simp
  split
  · simp
  refine .bind (sparesUnits_expect '\\' cs) fun ⟨⟨⟩, cs⟩ => ?_
  refine .bind (sparesUnits_expect 'u' cs) fun ⟨⟨⟩, cs⟩ => ?_
  refine .bind (sparesUnits_hexUnit cs) fun ⟨low, cs⟩ => ?_
  dsimp only
  split <;> simp

theorem sparesUnits_stringChar (cs : List Char) : SparesUnits (stringChar cs) := by
  unfold stringChar
  split
  · simp
  · simp
  · split
    · simp
    · split
      · exact sparesUnits_escapedUnit _
      · simp
  · split <;> simp

theorem sparesUnits_stringChars (steps : Nat) (cs : List Char) :
    SparesUnits (stringChars steps cs) := by
  fun_induction stringChars steps cs with
  | case1 => simp
  | case2 => simp
  | case3 steps cs _ ih =>
    refine .bind (sparesUnits_stringChar cs) fun ⟨c, cs⟩ => ?_
    exact .bind (ih cs) fun _ => sparesUnits_ok _

theorem sparesUnits_string (cs : List Char) : SparesUnits (string cs) :=
  .bind (sparesUnits_stringChars _ cs) fun _ => sparesUnits_ok _

theorem sparesUnits_skipStringChars (steps : Nat) (cs : List Char) :
    SparesUnits (skipStringChars steps cs) := by
  fun_induction skipStringChars steps cs with
  | case1 => simp
  | case2 => simp
  | case3 => simp
  | case4 => simp
  | case5 _ _ _ _ ih => exact ih
  | case6 steps rest _ ih => exact .bind (sparesUnits_hexUnit rest) fun ⟨_, rest⟩ => ih rest
  | case7 => simp
  | case8 => simp
  | case9 _ _ _ _ _ _ _ ih => exact ih

theorem sparesUnits_skipString (cs : List Char) : SparesUnits (skipString cs) :=
  sparesUnits_skipStringChars _ cs

/-! ## Numbers -/

theorem sparesUnits_digits (cs : List Char) : SparesUnits (digits cs) := by
  unfold digits
  split
  · simp
  · split <;> simp

theorem sparesUnits_wholeDigits (cs : List Char) : SparesUnits (wholeDigits cs) := by
  refine .bind (sparesUnits_digits cs) fun _ => ?_
  dsimp only
  split <;> simp

theorem sparesUnits_fractionDigits (cs : List Char) : SparesUnits (fractionDigits cs) := by
  unfold fractionDigits
  split
  · exact .bind (sparesUnits_digits _) fun _ => sparesUnits_ok _
  · simp

theorem sparesUnits_exponent (cs : List Char) : SparesUnits (exponent cs) := by
  rw [exponent.eq_def]
  split
  · split
    · exact .bind (sparesUnits_digits _) fun _ => sparesUnits_ok _
    · simp
  · simp

theorem sparesUnits_number (negative : Bool) (cs : List Char) :
    SparesUnits (number negative cs) := by
  refine .bind (sparesUnits_wholeDigits cs) fun ⟨whole, cs⟩ => ?_
  refine .bind (sparesUnits_fractionDigits cs) fun ⟨fraction, cs⟩ => ?_
  refine .bind (sparesUnits_exponent cs) fun ⟨exponent, cs⟩ => ?_
  dsimp only
  split <;> simp

theorem sparesUnits_skipDigits (cs : List Char) : SparesUnits (skipDigits cs) := by
  unfold skipDigits
  split
  · simp
  · split <;> simp

theorem sparesUnits_skipExponent (cs : List Char) : SparesUnits (skipExponent cs) := by
  unfold skipExponent
  split
  · split
    · exact sparesUnits_skipDigits _
    · simp
  · simp

theorem sparesUnits_skipNumber (cs : List Char) : SparesUnits (skipNumber cs) := by
  have hexponent := sparesUnits_skipExponent
  simp only [skipExponent_eq] at hexponent
  refine .bind (sparesUnits_skipDigits cs) fun ⟨⟨⟩, cs₁⟩ => ?_
  dsimp only
  split
  · simp
  split
  · exact .bind (sparesUnits_skipDigits _) fun x => hexponent x.2
  · exact hexponent cs₁

/-! ## Values -/

section

variable {σ : Type} {turn : Turn} {part : σ → Reader σ}

theorem sparesUnits_turns (hturn : ∀ first cs, SparesUnits (turn first cs))
    (hpart : ∀ st cs, SparesUnits (part st cs)) (n : Nat) (first : Bool) (st : σ)
    (cs : List Char) : SparesUnits (turns turn part n first st cs) := by
  induction n generalizing first st cs with
  | zero => simp [turns]
  | succ n ih =>
    refine .bind (hturn first cs) fun next => ?_
    cases next with
    | inl rest => simp
    | inr inside => exact .bind (hpart st inside) fun _ => ih _ _ _

theorem sparesUnits_elementTurn (first : Bool) (cs : List Char) :
    SparesUnits (elementTurn first cs) := by
  unfold elementTurn
  split
  · simp
  · simp
  split
  · simp
  split
  · split <;> simp
  · simp

theorem sparesUnits_memberTurn (first : Bool) (cs : List Char) :
    SparesUnits (memberTurn first cs) := by
  unfold memberTurn
  split
  · simp
  · simp
  split
  · split <;> simp
  · simp

theorem sparesUnits_elements (hpart : ∀ st cs, SparesUnits (part st cs)) (n : Nat) (first : Bool)
    (st : σ) (cs : List Char) : SparesUnits (elements part n first st cs) := by
  rw [elements_eq_turns]
  exact sparesUnits_turns sparesUnits_elementTurn hpart n first st cs

theorem sparesUnits_members (hpart : ∀ st cs, SparesUnits (part st cs)) (n : Nat) (first : Bool)
    (st : σ) (cs : List Char) : SparesUnits (members part n first st cs) := by
  rw [members_eq_turns]
  exact sparesUnits_turns sparesUnits_memberTurn hpart n first st cs

end

theorem sparesUnits_valueWith {array object : Reader Value} (ha : ∀ cs, SparesUnits (array cs))
    (ho : ∀ cs, SparesUnits (object cs)) (cs : List Char) :
    SparesUnits (valueWith array object cs) := by
  unfold valueWith
  split
  · simp
  · exact .bind (sparesUnits_literal _ _) fun _ => sparesUnits_ok _
  · exact .bind (sparesUnits_literal _ _) fun _ => sparesUnits_ok _
  · exact .bind (sparesUnits_literal _ _) fun _ => sparesUnits_ok _
  · exact .bind (sparesUnits_string _) fun _ => sparesUnits_ok _
  · exact ha _
  · exact ho _
  · exact .bind (sparesUnits_number _ _) fun _ => sparesUnits_ok _
  · split
    · exact .bind (sparesUnits_number _ _) fun _ => sparesUnits_ok _
    · simp

theorem sparesUnits_skipValue (steps : Nat) (cs : List Char) :
    SparesUnits (skipValue steps cs) := by
  induction steps generalizing cs with
  | zero => simp [skipValue]
  | succ steps ih =>
    have hskip := skipValue.eq_def (steps + 1) cs
    dsimp only at hskip
    rw [hskip]
    split
    · simp
    · exact sparesUnits_literal _ _
    · exact sparesUnits_literal _ _
    · exact sparesUnits_literal _ _
    · exact sparesUnits_skipString _
    · exact sparesUnits_elements (fun _ => ih) _ _ _ _
    · refine sparesUnits_members (fun _ cs => ?_) _ _ _ _
      refine .bind (sparesUnits_skipString cs) fun x => ?_
      exact .bind (sparesUnits_colon x.2) fun y => ih y.2
    · exact sparesUnits_skipNumber _
    · split
      · exact sparesUnits_skipNumber _
      · simp

theorem sparesUnits_skip (cs : List Char) : SparesUnits (skip cs) := sparesUnits_skipValue _ cs

/-! ## Typed values -/

theorem sparesUnits_mismatch {α : Type} (wanted : Wanted) (cs : List Char) :
    SparesUnits (mismatch wanted cs : Except JsonFault (α × List Char)) :=
  .bind (sparesUnits_valueWith (fun _ => sparesUnits_ok _) (fun _ => sparesUnits_ok _) cs)
    fun _ => sparesUnits_field _

theorem sparesUnits_readString (cs : List Char) : SparesUnits (readString cs) := by
  unfold readString
  split
  · exact sparesUnits_string _
  · exact sparesUnits_mismatch _ cs

theorem sparesUnits_readBoolean (cs : List Char) : SparesUnits (readBoolean cs) := by
  unfold readBoolean
  split
  · exact .bind (sparesUnits_literal _ _) fun _ => sparesUnits_ok _
  · exact .bind (sparesUnits_literal _ _) fun _ => sparesUnits_ok _
  · exact sparesUnits_mismatch _ cs

theorem sparesUnits_readOptionalString (cs : List Char) : SparesUnits (readOptionalString cs) := by
  unfold readOptionalString
  split
  · exact .bind (sparesUnits_literal _ _) fun _ => sparesUnits_ok _
  · exact .bind (sparesUnits_readString cs) fun _ => sparesUnits_ok _

theorem sparesUnits_readMap {σ : Type} {member : σ → Reader σ}
    (hmember : ∀ st cs, SparesUnits (member st cs)) (st : σ) (cs : List Char) :
    SparesUnits (readMap member st cs) := by
  unfold readMap
  split
  · exact sparesUnits_members hmember _ _ _ _
  · exact sparesUnits_mismatch _ cs

theorem sparesUnits_naturalName (cs : List Char) : SparesUnits (naturalName cs) := by
  unfold naturalName
  split
  · refine .bind (sparesUnits_number _ _) fun ⟨n, rest⟩ => ?_
    dsimp only
    split <;> simp
  · split
    · refine .bind (sparesUnits_number _ _) fun ⟨n, rest⟩ => ?_
      dsimp only
      split <;> simp
    · exact sparesUnits_malformed
  · exact sparesUnits_malformed

/-! ## The first member that cannot be read -/

/-- A place among the members of an object: whether none has been read, and the text. -/
abbrev Place := Bool × List Char

def NextMember (item : Reader Value) (p : Place) (m : String × Value) (q : Place) : Prop :=
  ∃ inside r, memberTurn p.1 p.2 = .ok (.inr inside) ∧ entry string item inside = .ok (m, r) ∧
    q = (false, r)

def PassesMember {σ : Type} (member : σ → Reader σ) (item : Reader Value) (s : σ × Place)
    (m : String × Value) (s' : σ × Place) : Prop :=
  ∃ inside r st, memberTurn s.2.1 s.2.2 = .ok (.inr inside) ∧
    entry string item inside = .ok (m, r) ∧ member s.1 inside = .ok (st, r) ∧ s' = (st, false, r)

section

variable {σ : Type} {member : σ → Reader σ} {item : Reader Value}
variable {R : σ → List (String × Value) → Prop}
variable {st st' : σ} {p q : Place} {ms : List (String × Value)} {n : Nat} {f : JsonFault}

theorem turns_of_inr {first : Bool} {cs inside : List Char}
    (h : memberTurn first cs = .ok (.inr inside)) :
    turns memberTurn member (n + 1) first st cs
      = member st inside >>= fun x => turns memberTurn member n false x.1 x.2 := by
  rw [turns, h]
  rfl

theorem NextMember.unique {m m' : String × Value} {q' : Place} (h : NextMember item p m q)
    (h' : NextMember item p m' q') : m = m' ∧ q = q' := by
  obtain ⟨inside, r, hturn, hentry, rfl⟩ := h
  obtain ⟨inside', r', hturn', hentry', rfl⟩ := h'
  cases hturn.symm.trans hturn'
  cases hentry.symm.trans hentry'
  exact ⟨rfl, rfl⟩

theorem run_unique {q' : Place} (h : Run (NextMember item) p ms q)
    (h' : Run (NextMember item) p ms q') : q = q' := by
  induction h with
  | nil =>
    cases h'
    rfl
  | cons hnext _ ih =>
    cases h' with
    | cons hnext' hrun' =>
      obtain ⟨-, rfl⟩ := hnext.unique hnext'
      exact ih hrun'

theorem run_split {τ β : Type} {move : τ → β → τ → Prop} {xs ys : List β} {s s' : τ}
    (h : Run move s (xs ++ ys) s') : ∃ mid, Run move s xs mid ∧ Run move mid ys s' := by
  induction xs generalizing s with
  | nil => exact ⟨s, .nil s, h⟩
  | cons x xs ih =>
    cases h with
    | cons hmove hrun =>
      obtain ⟨mid, hxs, hys⟩ := ih hrun
      exact ⟨mid, .cons hmove hxs, hys⟩

theorem run_of_passes {s s' : σ × Place} (h : Run (PassesMember member item) s ms s') :
    Run (NextMember item) s.2 ms s'.2 := by
  induction h with
  | nil => exact .nil _
  | cons hpass _ ih =>
    obtain ⟨inside, r, st₁, hturn, hentry, -, rfl⟩ := hpass
    exact .cons ⟨inside, r, hturn, hentry, rfl⟩ ih

/-- The members that are read one after another stand one after another. -/
theorem run_of_written {first : Bool} {acc acc' : List (String × Value)} {cs r : List Char}
    (h : turns memberTurn (writtenMember item) n first acc cs = .ok (acc', r)) :
    ∃ ms q, acc' = acc ++ ms ∧ ms.length < n ∧ Run (NextMember item) (first, cs) ms q ∧
      memberTurn q.1 q.2 = .ok (.inl r) := by
  induction n generalizing first acc cs with
  | zero => cases h
  | succ n ih =>
    obtain ⟨next, hturn, h⟩ := bind_eq_ok.1 h
    cases next with
    | inl rest =>
      cases h
      exact ⟨[], (first, cs), (List.append_nil _).symm, Nat.succ_pos n, .nil _, hturn⟩
    | inr inside =>
      obtain ⟨⟨acc₁, cs₁⟩, hmember, h⟩ := bind_eq_ok.1 h
      obtain ⟨⟨m, r₁⟩, hentry, hmember⟩ := bind_eq_ok.1 hmember
      cases hmember
      obtain ⟨ms, q, rfl, hlength, hrun, hclose⟩ := ih h
      exact ⟨m :: ms, q, List.append_assoc acc [m] ms, Nat.succ_lt_succ hlength,
        .cons ⟨inside, cs₁, hturn, hentry, rfl⟩ hrun, hclose⟩

/-- What lockstep keeps holds after the members that have been read. -/
theorem related_of_passes
    (hmember : ∀ st ms, R st ms → Lockstep R (member st) (writtenMember item ms))
    {acc : List (String × Value)} {s s' : σ × Place} (hst : R s.1 acc)
    (h : Run (PassesMember member item) s ms s') : R s'.1 (acc ++ ms) := by
  induction h generalizing acc with
  | nil => rwa [List.append_nil]
  | @cons s s₁ s' m ms hpass _ ih =>
    obtain ⟨inside, r, st₁, -, hentry, hread, rfl⟩ := hpass
    have hwritten : writtenMember item acc inside = .ok (acc ++ [m], r) := by
      rw [writtenMember, hentry]
      rfl
    rw [List.append_cons]
    exact ih (hmember _ _ hst hread hwritten).2

/-- Where the value has members to the end, a reader fails at the first that it cannot read. -/
theorem exists_member_of_error
    (hmember : ∀ st ms, R st ms → Lockstep R (member st) (writtenMember item ms))
    {acc : List (String × Value)} (hst : R st acc) (hrun : Run (NextMember item) p ms q)
    {r : List Char} (hclose : memberTurn q.1 q.2 = .ok (.inl r)) (hn : ms.length < n)
    (h : turns memberTurn member n p.1 st p.2 = .error f) :
    ∃ before m after st' q' inside r', ms = before ++ m :: after ∧
      Run (PassesMember member item) (st, p) before (st', q') ∧
      memberTurn q'.1 q'.2 = .ok (.inr inside) ∧ entry string item inside = .ok (m, r') ∧
      member st' inside = .error f := by
  induction hrun generalizing n st acc with
  | nil p =>
    cases n with
    | zero => exact absurd hn (Nat.not_lt_zero _)
    | succ n =>
      rw [turns, hclose] at h
      cases h
  | @cons p p₁ q m ms hnext _ ih =>
    obtain ⟨inside, r₁, hturn, hentry, rfl⟩ := hnext
    cases n with
    | zero => exact absurd hn (Nat.not_lt_zero _)
    | succ n =>
      rw [turns_of_inr hturn] at h
      rcases bind_eq_error.1 h with h | ⟨⟨st₁, cs₁⟩, hread, h⟩
      · exact ⟨[], m, ms, st, p, inside, r₁, rfl, .nil _, hturn, hentry, h⟩
      · have hwritten : writtenMember item acc inside = .ok (acc ++ [m], r₁) := by
          rw [writtenMember, hentry]
          rfl
        obtain ⟨rfl, hst₁⟩ := hmember st acc hst hread hwritten
        obtain ⟨before, m', after, st', q', inside', r', rfl, hpasses, hfault⟩ :=
          ih hst₁ hclose (Nat.lt_of_succ_lt_succ hn) h
        exact ⟨m :: before, m', after, st', q', inside', r', rfl,
          .cons ⟨inside, cs₁, st₁, hturn, hentry, hread, rfl⟩ hpasses, hfault⟩

theorem turns_eq_error {s s' : σ × Place} (hrun : Run (PassesMember member item) s ms s')
    {inside : List Char} (hturn : memberTurn s'.2.1 s'.2.2 = .ok (.inr inside))
    (h : member s'.1 inside = .error f) (hn : ms.length < n) :
    turns memberTurn member n s.2.1 s.1 s.2.2 = .error f := by
  induction hrun generalizing n with
  | nil s =>
    cases n with
    | zero => exact absurd hn (Nat.not_lt_zero _)
    | succ n =>
      rw [turns_of_inr hturn]
      exact bind_eq_error.2 (.inl h)
  | cons hpass _ ih =>
    obtain ⟨inside', r, st₁, hturn', -, hread, rfl⟩ := hpass
    cases n with
    | zero => exact absurd hn (Nat.not_lt_zero _)
    | succ n =>
      rw [turns_of_inr hturn']
      exact bind_eq_error.2 (.inr ⟨_, hread, ih hturn h (Nat.lt_of_succ_lt_succ hn)⟩)

end

end Json
end NumberWords
