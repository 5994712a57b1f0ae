import NumberWords.Json.Reader
import NumberWords.Proofs.Fallible

/-!
Readers in lockstep.

A text may be read in several ways: as a generic value, as a value of a wanted type, and by passing
over it.  The readers differ in what they accept, but where two of them succeed on one text they
leave the same rest.  So two readers of an object go through the same members, and a relation of
their states that each member keeps holds at the end (`lockstep_members`).
-/

namespace NumberWords
namespace Json

open Fallible

/-- Where both readers succeed they leave the same rest, and what they have read is related. -/
def Lockstep {α β : Type} (R : α → β → Prop) (p : Reader α) (q : Reader β) : Prop :=
  ∀ ⦃cs a r b r'⦄, p cs = .ok (a, r) → q cs = .ok (b, r') → r = r' ∧ R a b

/-- Where both readers succeed they leave the same rest. -/
def Agree {α β : Type} (p : Reader α) (q : Reader β) : Prop := Lockstep (fun _ _ => True) p q

section

variable {α β γ δ : Type} {p : Reader α} {q : Reader β}

theorem Agree.refl (p : Reader α) : Agree p p := by
  intro cs a r b r' hp hq
  cases hp.symm.trans hq
  exact ⟨rfl, trivial⟩

theorem Agree.symm (h : Agree p q) : Agree q p := by
  intro cs b r a r' hq hp
  exact ⟨(h hp hq).1.symm, trivial⟩

theorem Agree.map {g : α → γ} (h : Agree p q) :
    Agree (fun cs => do
      let (a, rest) ← p cs
      .ok (g a, rest)) q := by
  intro cs a r b r' hp hq
  obtain ⟨⟨a', rest⟩, hread, hp⟩ := bind_eq_ok.1 hp
  cases hp
  exact h hread hq

def entry (p : Reader α) (q : Reader β) : Reader (α × β) := fun cs => do
  let (a, cs) ← p cs
  let ((), cs) ← colon cs
  let (b, cs) ← q cs
  .ok ((a, b), cs)

theorem entry_eq_ok {x : α × β} {cs r : List Char} :
    entry p q cs = .ok (x, r) ↔ ∃ cs₁ cs₂, p cs = .ok (x.1, cs₁) ∧ colon cs₁ = .ok ((), cs₂) ∧
      q cs₂ = .ok (x.2, r) := by
  constructor
  · intro h
    obtain ⟨⟨a, cs₁⟩, hp, h⟩ := bind_eq_ok.1 h
    obtain ⟨⟨⟨⟩, cs₂⟩, hcolon, h⟩ := bind_eq_ok.1 h
    obtain ⟨⟨b, cs₃⟩, hq, h⟩ := bind_eq_ok.1 h
    cases h
    exact ⟨cs₁, cs₂, hp, hcolon, hq⟩
  · rintro ⟨cs₁, cs₂, hp, hcolon, hq⟩
    simp [entry, hp, hcolon, hq, bind, Except.bind]

/-- A member that is put into a state is an entry. -/
theorem entry_of_insert {f : α → β → γ} {c : γ} {cs r : List Char}
    (h : (do
      let (a, cs) ← p cs
      let ((), cs) ← colon cs
      let (b, cs) ← q cs
      .ok (f a b, cs) : Except JsonFault (γ × List Char)) = .ok (c, r)) :
    ∃ x, entry p q cs = .ok (x, r) ∧ f x.1 x.2 = c := by
  obtain ⟨⟨a, cs₁⟩, hp, h⟩ := bind_eq_ok.1 h
  obtain ⟨⟨⟨⟩, cs₂⟩, hcolon, h⟩ := bind_eq_ok.1 h
  obtain ⟨⟨b, cs₃⟩, hq, h⟩ := bind_eq_ok.1 h
  cases h
  exact ⟨(a, b), entry_eq_ok.2 ⟨cs₁, cs₂, hp, hcolon, hq⟩, rfl⟩

theorem agree_entry {p' : Reader γ} {q' : Reader δ} (hp : Agree p p') (hq : Agree q q') :
    Agree (entry p q) (entry p' q') := by
  intro cs a r b r' h h'
  obtain ⟨cs₁, cs₂, hname, hcolon, hvalue⟩ := entry_eq_ok.1 h
  obtain ⟨cs₁', cs₂', hname', hcolon', hvalue'⟩ := entry_eq_ok.1 h'
  obtain ⟨rfl, -⟩ := hp hname hname'
  cases hcolon.symm.trans hcolon'
  exact hq hvalue hvalue'

def objectMember (item : Reader Value) (entries : List (String × Value)) :
    Reader (List (String × Value)) := fun cs => do
  let (name, cs) ← string cs
  let ((), cs) ← colon cs
  let (v, cs) ← item cs
  .ok (SortedMap.insertEntry name v entries, cs)

theorem objectOf_eq_bind (item : Reader Value) (cs : List Char) :
    objectOf item cs = members (objectMember item) (cs.length + 1) true [] cs >>=
      fun x => .ok (.object x.1, x.2) := rfl

theorem entry_of_objectMember {item : Reader Value} {entries entries' : List (String × Value)}
    {cs r : List Char} (h : objectMember item entries cs = .ok (entries', r)) :
    ∃ m, entry string item cs = .ok (m, r) := by
  obtain ⟨m, hentry, -⟩ :=
    entry_of_insert (f := fun name v => SortedMap.insertEntry name v entries) h
  exact ⟨m, hentry⟩

end

/-! ## Members and elements -/

/-- What comes next inside brackets: the rest after the closing one, or the text of one more
part. -/
abbrev Turn := Bool → List Char → Except JsonFault (List Char ⊕ List Char)

/-- An element begins where its value does. -/
def elementTurn : Turn := fun first cs =>
  match skipBlank cs with
  | [] => .error .truncated
  | ']' :: rest => .ok (.inl rest)
  | c :: rest =>
    if first then .ok (.inr (c :: rest))
    else if c = ',' then
      match skipBlank rest with
      | [] => .error .truncated
      | ']' :: _ => .error .malformed
      | cs => .ok (.inr cs)
    else .error .malformed

/-- A member begins after the opening quote of its name. -/
def memberTurn : Turn := fun first cs =>
  match skipBlank cs with
  | [] => .error .truncated
  | '}' :: rest => .ok (.inl rest)
  | c :: rest =>
    if first || c = ',' then
      match if first then c :: rest else skipBlank rest with
      | [] => .error .truncated
      | '"' :: cs => .ok (.inr cs)
      | _ => .error .malformed
    else .error .malformed

variable {σ τ : Type}

/-- Read part after part up to the closing bracket. -/
def turns (turn : Turn) (part : σ → Reader σ) : Nat → Bool → σ → Reader σ
  | 0, _, _, _ => .error .truncated
  | steps + 1, first, st, cs => do
    match ← turn first cs with
    | .inl rest => .ok (st, rest)
    | .inr inside => do
      let (st, cs) ← part st inside
      turns turn part steps false st cs

theorem elements_eq_turns (item : σ → Reader σ) (n : Nat) (first : Bool) (st : σ)
    (cs : List Char) : elements item n first st cs = turns elementTurn item n first st cs := by
  induction n generalizing first st cs with
  | zero => rfl
  | succ n ih =>
    rw [elements, turns, elementTurn]
    simp only [ih]
    generalize skipBlank cs = cs'
    split
    · rfl
    · rfl
    · next c rest hclose =>
      cases first with
      | true => simp [bind, Except.bind]
      | false =>
        by_cases hc : c = ','
        · subst hc
          simp only [Bool.false_eq_true, if_false, if_true]
          generalize skipBlank rest = inside
          cases inside with
          | nil => rfl
          | cons c inside =>
            by_cases hend : c = ']'
            · subst hend
              rfl
            · simp [hend, bind, Except.bind]
        · simp [hc, bind, Except.bind]

theorem members_eq_turns (member : σ → Reader σ) (n : Nat) (first : Bool) (st : σ)
    (cs : List Char) : members member n first st cs = turns memberTurn member n first st cs := by
  induction n generalizing first st cs with
  | zero => rfl
  | succ n ih =>
    rw [members, turns, memberTurn]
    simp only [ih]
    generalize skipBlank cs = cs'
    split
    · rfl
    · rfl
    · next c rest hclose =>
      by_cases hstart : (first || c = ',') = true
      · simp only [hstart, if_true]
        generalize (if first then c :: rest else skipBlank rest) = cs'
        split <;> simp_all [bind, Except.bind]
      · simp [hstart, bind, Except.bind]

section

variable {turn : Turn} {R : σ → τ → Prop} {part : σ → Reader σ} {part' : τ → Reader τ}

/-- Readers that go in lockstep at each part go in lockstep to the closing bracket. -/
theorem lockstep_turns (h : ∀ st st', R st st' → Lockstep R (part st) (part' st')) {n m : Nat}
    {first : Bool} {st : σ} {st' : τ} (hst : R st st') :
    Lockstep R (turns turn part n first st) (turns turn part' m first st') := by
  induction n generalizing m first st st' with
  | zero => intro cs a r b r' hp hq; cases hp
  | succ n ih =>
    intro cs a r b r' hp hq
    cases m with
    | zero => cases hq
    | succ m =>
      obtain ⟨next, hnext, hp⟩ := bind_eq_ok.1 hp
      obtain ⟨next', hnext', hq⟩ := bind_eq_ok.1 hq
      cases hnext.symm.trans hnext'
      cases next with
      | inl rest =>
        cases hp
        cases hq
        exact ⟨rfl, hst⟩
      | inr inside =>
        obtain ⟨⟨st₁, cs₁⟩, hpart, hp⟩ := bind_eq_ok.1 hp
        obtain ⟨⟨st₁', cs₁'⟩, hpart', hq⟩ := bind_eq_ok.1 hq
        obtain ⟨rfl, hst₁⟩ := h st st' hst hpart hpart'
        exact ih hst₁ hp hq

theorem lockstep_elements (h : ∀ st st', R st st' → Lockstep R (part st) (part' st')) {n m : Nat}
    {first : Bool} {st : σ} {st' : τ} (hst : R st st') :
    Lockstep R (elements part n first st) (elements part' m first st') := by
  intro cs a r b r' hp hq
  rw [elements_eq_turns] at hp hq
  exact lockstep_turns h hst hp hq

theorem lockstep_members (h : ∀ st st', R st st' → Lockstep R (part st) (part' st')) {n m : Nat}
    {first : Bool} {st : σ} {st' : τ} (hst : R st st') :
    Lockstep R (members part n first st) (members part' m first st') := by
  intro cs a r b r' hp hq
  rw [members_eq_turns] at hp hq
  exact lockstep_turns h hst hp hq

end

/-- A reader of members with another form of the state reads the same. -/
theorem members_map {f : σ → τ} {member : σ → Reader σ} {member' : τ → Reader τ}
    (h : ∀ st cs, member' (f st) cs = (member st cs).map (Prod.map f id)) {n : Nat} {first : Bool}
    {st : σ} {cs : List Char} :
    members member' n first (f st) cs = (members member n first st cs).map (Prod.map f id) := by
  rw [members_eq_turns, members_eq_turns]
  induction n generalizing first st cs with
  | zero => rfl
  | succ n ih =>
    rw [turns, turns]
    rcases memberTurn first cs with e | rest | inside
    · rfl
    · rfl
    · simp only [bind, Except.bind, h]
      cases member st inside with
      | error e => rfl
      | ok read => exact ih

end Json
end NumberWords
