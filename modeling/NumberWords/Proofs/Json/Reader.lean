import NumberWords.Json.Reader
import NumberWords.Proofs.Json.Lexical
import NumberWords.Proofs.Json.Lockstep
import NumberWords.Proofs.Json.Normal

/-!
Printed values read back.

A reader of members hands a state along, so what it does with a printed object is a run: one move
for each member, in the printed order (`members_object`).  A generic value comes back with the
members of its objects in order of their names (`reads_value`).
-/

namespace NumberWords
namespace Json

/-! ## Blanks -/

theorem skipBlank_cons {c : Char} (hc : isBlank c = false) (cs : List Char) :
    skipBlank (c :: cs) = c :: cs :=
  List.dropWhile_cons_of_neg (by simp [hc])

theorem skipBlank_append {blanks : List Char} (h : ∀ c ∈ blanks, isBlank c = true)
    (cs : List Char) : skipBlank (blanks ++ cs) = skipBlank cs :=
  List.dropWhile_append_of_pos h

theorem skipBlank_newLine (depth : Nat) (cs : List Char) :
    skipBlank (newLine depth ++ cs) = skipBlank cs := by
  refine skipBlank_append (fun c hc => ?_) cs
  rcases List.mem_cons.1 hc with rfl | hc
  · rfl
  · rw [(List.mem_replicate.1 hc).2]
    rfl

theorem isBlank_of_isDigit {c : Char} (hc : c.isDigit = true) : isBlank c = false := by
  refine Bool.eq_false_iff.2 fun hblank => ?_
  simp only [isBlank, Bool.or_eq_true, decide_eq_true_eq] at hblank
  rcases hblank with ((rfl | rfl) | rfl) | rfl <;> cases hc

theorem skipBlank_string (s : String) (depth : Nat) (rest : List Char) :
    skipBlank ((Value.string s).textAt depth ++ rest)
      = '"' :: (s.toList.flatMap escapeChar ++ '"' :: rest) := by
  rw [Value.textAt, stringText, List.cons_append, List.cons_append, skipBlank_cons rfl,
    List.append_assoc, List.singleton_append]

theorem colon_cons (rest : List Char) : colon (':' :: rest) = .ok ((), rest) := rfl

/-! ## Runs -/

/-- A state goes through a list, one move for each entry. -/
inductive Run {σ β : Type} (move : σ → β → σ → Prop) : σ → List β → σ → Prop where
  | nil (st : σ) : Run move st [] st
  | cons {st st' st'' : σ} {x : β} {xs : List β} :
      move st x st' → Run move st' xs st'' → Run move st (x :: xs) st''

theorem run_foldl {σ β : Type} {move : σ → β → σ → Prop} {f : σ → β → σ} {xs : List β}
    (h : ∀ st, ∀ x ∈ xs, move st x (f st x)) (st : σ) : Run move st xs (xs.foldl f st) := by
  induction xs generalizing st with
  | nil => exact .nil st
  | cons x xs ih =>
    exact .cons (h st x List.mem_cons_self)
      (ih (fun st y hy => h st y (List.mem_cons_of_mem _ hy)) _)

theorem run_map {σ β γ : Type} {move : σ → γ → σ → Prop} {g : β → γ} {st st' : σ} {xs : List β}
    (h : Run (fun st x st' => move st (g x) st') st xs st') : Run move st (xs.map g) st' := by
  induction h with
  | nil st => exact .nil st
  | cons hmove _ ih => exact .cons hmove ih

def memberText (depth : Nat) (m : String × Value) : List Char :=
  m.1.toList.flatMap escapeChar ++ '"' :: ':' :: ' ' :: m.2.textAt depth

/-- The reader gives `a` for the text of `v`, wherever it stands. -/
def Reads {α : Type} (read : Reader α) (v : Value) (a : α) : Prop :=
  ∀ depth cs rest, skipBlank cs = skipBlank (v.textAt depth ++ rest) → Ends rest →
    read cs = .ok (a, rest)

/-- A member's value stands after a colon and a blank. -/
theorem Reads.after_blank {α : Type} {read : Reader α} {v : Value} {a : α} (h : Reads read v a)
    (depth : Nat) {rest : List Char} (hrest : Ends rest) :
    read (' ' :: (v.textAt depth ++ rest)) = .ok (a, rest) :=
  h depth _ rest rfl hrest

def Takes {σ : Type} (member : σ → Reader σ) (st : σ) (m : String × Value) (st' : σ) : Prop :=
  ∀ depth rest, Ends rest → member st (memberText depth m ++ rest) = .ok (st', rest)

variable {σ : Type} {member : σ → Reader σ} {st st' : σ} {ms : List (String × Value)}
variable {cs rest : List Char} {depth steps : Nat}

/-! ## Members -/

theorem membersTextAt_cons (depth : Nat) (m : String × Value) (ms : List (String × Value))
    (rest : List Char) :
    membersTextAt depth (m :: ms) ++ rest = ',' :: (newLine (depth + 1)
      ++ '"' :: (memberText (depth + 1) m ++ (membersTextAt depth ms ++ rest))) := by
  simp [membersTextAt, stringText, memberText]

theorem textAt_object_cons (depth : Nat) (m : String × Value) (ms : List (String × Value))
    (rest : List Char) :
    (Value.object (m :: ms)).textAt depth ++ rest = '{' :: (newLine (depth + 1)
      ++ '"' :: (memberText (depth + 1) m ++ (membersTextAt depth ms ++ rest))) := by
  simp [Value.textAt, stringText, memberText]

theorem ends_membersTextAt (depth : Nat) (ms : List (String × Value)) (rest : List Char) :
    Ends (membersTextAt depth ms ++ rest) := by
  cases ms with
  | nil => rintro c ⟨⟩; decide
  | cons m ms => rintro c ⟨⟩; decide

theorem length_le_membersTextAt (depth : Nat) (ms : List (String × Value)) :
    ms.length ≤ (membersTextAt depth ms).length := by
  induction ms with
  | nil => exact Nat.zero_le _
  | cons m ms ih =>
    simp only [membersTextAt, List.length_cons, List.length_append]
    omega

/-- The members after the first one. -/
theorem members_later (hrun : Run (Takes member) st ms st') (hsteps : ms.length < steps)
    (depth : Nat) (rest : List Char) :
    members member steps false st (membersTextAt depth ms ++ rest) = .ok (st', rest) := by
  -- The run gives the members; each takes one of the steps, and the closing brace takes the last.
  induction hrun generalizing steps with
  | nil st =>
    obtain ⟨steps, rfl⟩ : ∃ k, steps = k + 1 := ⟨steps - 1, by omega⟩
    rw [membersTextAt, List.append_assoc]
    simp [members, skipBlank_newLine, skipBlank_cons (c := '}') rfl]
  | @cons st st₁ st' m ms hmove _ ih =>
    obtain ⟨steps, rfl⟩ : ∃ k, steps = k + 1 := ⟨steps - 1, by omega⟩
    have hmove := hmove (depth + 1) _ (ends_membersTextAt depth ms rest)
    have hlater := ih (Nat.lt_of_succ_lt_succ hsteps)
    rw [membersTextAt_cons]
    simp [members, skipBlank_newLine, skipBlank_cons (c := ',') rfl, skipBlank_cons (c := '"') rfl,
      hmove, hlater, bind, Except.bind]

theorem members_object (hrun : Run (Takes member) st ms st')
    (hcs : skipBlank cs = skipBlank ((Value.object ms).textAt depth ++ rest)) :
    ∃ inside, skipBlank cs = '{' :: inside
      ∧ members member (inside.length + 1) true st inside = .ok (st', rest) := by
  cases hrun with
  | nil st => exact ⟨'}' :: rest, hcs.trans (skipBlank_cons rfl _), rfl⟩
  | @cons _ st₁ _ m ms hmove hrun =>
    rw [textAt_object_cons, skipBlank_cons rfl] at hcs
    refine ⟨_, hcs, ?_⟩
    have hmove := hmove (depth + 1) _ (ends_membersTextAt depth ms rest)
    generalize hinside : newLine (depth + 1) ++ _ = inside
    have hsteps : ms.length < inside.length := by
      have := length_le_membersTextAt depth ms
      simp only [← hinside, List.length_append, List.length_cons]
      omega
    have hlater := members_later hrun hsteps depth rest
    have hskip : skipBlank inside
        = '"' :: (memberText (depth + 1) m ++ (membersTextAt depth ms ++ rest)) := by
      rw [← hinside, skipBlank_newLine, skipBlank_cons rfl]
    simp [members, hskip, hmove, hlater, bind, Except.bind]

/-! ## Elements -/

/-- The text of the value begins neither with a blank nor with the end of a list. -/
def Value.Opens (v : Value) : Prop :=
  ∀ depth, ∃ c cs, v.textAt depth = c :: cs ∧ isBlank c = false ∧ c ≠ ']'

def TakesItem (item : σ → Reader σ) (st : σ) (v : Value) (st' : σ) : Prop :=
  v.Opens ∧ Reads (item st) v st'

variable {item : σ → Reader σ} {vs : List Value}

theorem itemsTextAt_cons (depth : Nat) (v : Value) (vs : List Value) (rest : List Char) :
    itemsTextAt depth (v :: vs) ++ rest = ',' :: (newLine (depth + 1)
      ++ (v.textAt (depth + 1) ++ (itemsTextAt depth vs ++ rest))) := by
  simp [itemsTextAt]

theorem textAt_array_cons (depth : Nat) (v : Value) (vs : List Value) (rest : List Char) :
    (Value.array (v :: vs)).textAt depth ++ rest = '[' :: (newLine (depth + 1)
      ++ (v.textAt (depth + 1) ++ (itemsTextAt depth vs ++ rest))) := by
  simp [Value.textAt]

theorem ends_itemsTextAt (depth : Nat) (vs : List Value) (rest : List Char) :
    Ends (itemsTextAt depth vs ++ rest) := by
  cases vs with
  | nil => rintro c ⟨⟩; decide
  | cons v vs => rintro c ⟨⟩; decide

theorem length_le_itemsTextAt (depth : Nat) (vs : List Value) :
    vs.length ≤ (itemsTextAt depth vs).length := by
  induction vs with
  | nil => exact Nat.zero_le _
  | cons v vs ih =>
    simp only [itemsTextAt, List.length_cons, List.length_append]
    omega

/-- The elements after the first one. -/
theorem elements_later (hrun : Run (TakesItem item) st vs st') (hsteps : vs.length < steps)
    (depth : Nat) (rest : List Char) :
    elements item steps false st (itemsTextAt depth vs ++ rest) = .ok (st', rest) := by
  induction hrun generalizing steps with
  | nil st =>
    obtain ⟨steps, rfl⟩ : ∃ k, steps = k + 1 := ⟨steps - 1, by omega⟩
    rw [itemsTextAt, List.append_assoc]
    simp [elements, skipBlank_newLine, skipBlank_cons (c := ']') rfl]
  | @cons st st₁ st' v vs hmove _ ih =>
    obtain ⟨steps, rfl⟩ : ∃ k, steps = k + 1 := ⟨steps - 1, by omega⟩
    obtain ⟨c, cs, hc, hblank, hne⟩ := hmove.1 (depth + 1)
    have hmove := hmove.2 (depth + 1) (c :: (cs ++ (itemsTextAt depth vs ++ rest))) _
      (by rw [hc]; rfl) (ends_itemsTextAt depth vs rest)
    have hlater := ih (Nat.lt_of_succ_lt_succ hsteps)
    rw [itemsTextAt_cons, hc]
    simp [elements, skipBlank_newLine, skipBlank_cons (c := ',') rfl, skipBlank_cons hblank, hne,
      hmove, hlater, bind, Except.bind]

theorem elements_array (hrun : Run (TakesItem item) st vs st')
    (hcs : skipBlank cs = skipBlank ((Value.array vs).textAt depth ++ rest)) :
    ∃ inside, skipBlank cs = '[' :: inside
      ∧ elements item (inside.length + 1) true st inside = .ok (st', rest) := by
  cases hrun with
  | nil st => exact ⟨']' :: rest, hcs.trans (skipBlank_cons rfl _), rfl⟩
  | @cons _ st₁ _ v vs hmove hrun =>
    obtain ⟨c, cs', hc, hblank, hne⟩ := hmove.1 (depth + 1)
    rw [textAt_array_cons, skipBlank_cons rfl, hc] at hcs
    refine ⟨_, hcs, ?_⟩
    have hmove := hmove.2 (depth + 1) (c :: (cs' ++ (itemsTextAt depth vs ++ rest))) _
      (by rw [hc]; rfl) (ends_itemsTextAt depth vs rest)
    generalize hinside : newLine (depth + 1) ++ _ = inside
    have hsteps : vs.length < inside.length := by
      have := length_le_itemsTextAt depth vs
      simp only [← hinside, List.length_append, List.length_cons]
      omega
    have hlater := elements_later hrun hsteps depth rest
    have hskip : skipBlank inside = c :: (cs' ++ (itemsTextAt depth vs ++ rest)) := by
      rw [← hinside, skipBlank_newLine, List.cons_append, skipBlank_cons hblank]
    simp [elements, hskip, hmove, hlater, bind, Except.bind]

/-! ## Values -/

/-- A value without fractions and negative numbers, of at most the given nesting. -/
inductive Value.Fits : Nat → Value → Prop where
  | null (depth : Nat) : Fits depth .null
  | boolean (depth : Nat) (b : Bool) : Fits depth (.boolean b)
  | natural (depth : Nat) (n : UInt64) : Fits depth (.number (.natural n))
  | string (depth : Nat) (s : String) : Fits depth (.string s)
  | array {depth : Nat} {items : List Value} :
    (∀ v ∈ items, Fits depth v) → Fits (depth + 1) (.array items)
  | object {depth : Nat} {members : List (String × Value)} :
    (∀ m ∈ members, Fits depth m.2) → Fits (depth + 1) (.object members)

theorem Value.Fits.opens {v : Value} (h : v.Fits depth) : v.Opens := by
  intro k
  cases h with
  | null => exact ⟨_, _, rfl, rfl, by decide⟩
  | boolean _ b => cases b <;> exact ⟨_, _, rfl, rfl, by decide⟩
  | natural _ n =>
    obtain ⟨d, ds, hd, hdigit⟩ := exists_toDigits n.toNat
    exact ⟨d, ds, hd, isBlank_of_isDigit hdigit, by rintro rfl; cases hdigit⟩
  | string _ s => exact ⟨_, _, rfl, rfl, by decide⟩
  | @array _ items _ => cases items <;> exact ⟨_, _, rfl, rfl, by decide⟩
  | @object _ members _ => cases members <;> exact ⟨_, _, rfl, rfl, by decide⟩

/-- A value that is neither a list nor an object is read in the same way at every nesting. -/
theorem value_eq (depth : Nat) : ∃ array object, value depth = valueWith array object := by
  cases depth with
  | zero => exact ⟨_, _, rfl⟩
  | succ depth => exact ⟨_, _, rfl⟩

theorem reads_null (array object : Reader Value) : Reads (valueWith array object) .null .null := by
  intro depth cs rest hcs _
  rw [Value.textAt, List.cons_append, skipBlank_cons rfl] at hcs
  simp [valueWith, hcs, literal, bind, Except.bind]

theorem reads_boolean (array object : Reader Value) (b : Bool) :
    Reads (valueWith array object) (.boolean b) (.boolean b) := by
  intro depth cs rest hcs _
  cases b with
  | true =>
    rw [Value.textAt, List.cons_append, skipBlank_cons rfl] at hcs
    simp [valueWith, hcs, literal, bind, Except.bind]
  | false =>
    rw [Value.textAt, List.cons_append, skipBlank_cons rfl] at hcs
    simp [valueWith, hcs, literal, bind, Except.bind]

theorem reads_string (array object : Reader Value) (s : String) :
    Reads (valueWith array object) (.string s) (.string s) := by
  intro depth cs rest hcs _
  rw [skipBlank_string] at hcs
  simp [valueWith, hcs, string_escape, bind, Except.bind]

theorem reads_natural (array object : Reader Value) (n : UInt64) :
    Reads (valueWith array object) (.number (.natural n)) (.number (.natural n)) := by
  intro depth cs rest hcs hrest
  have hnumber := number_toDigits n hrest
  obtain ⟨d, ds, hd, hdigit⟩ := exists_toDigits n.toNat
  rw [hd, List.cons_append] at hnumber
  rw [Value.textAt, Number.text, hd, List.cons_append,
    skipBlank_cons (isBlank_of_isDigit hdigit)] at hcs
  simp only [valueWith, hcs]
  -- A digit is none of the characters with which the other values begin.
  split <;> simp_all [bind, Except.bind]

theorem run_append {read : Reader Value} {items : List Value}
    (h : ∀ v ∈ items, v.Opens ∧ Reads read v v.normal) (acc : List Value) :
    Run (TakesItem fun acc cs => do
      let (v, cs) ← read cs
      .ok (acc ++ [v], cs)) acc items (acc ++ items.map Value.normal) := by
  induction items generalizing acc with
  | nil => simpa using Run.nil acc
  | cons v items ih =>
    have hlater := ih (fun v hv => h v (List.mem_cons_of_mem _ hv)) (acc ++ [v.normal])
    rw [List.append_assoc, List.singleton_append] at hlater
    refine .cons ⟨(h v List.mem_cons_self).1, fun depth cs rest hcs hrest => ?_⟩ hlater
    simp [(h v List.mem_cons_self).2 depth cs rest hcs hrest, bind, Except.bind]

theorem reads_array {read : Reader Value} {items : List Value}
    (h : ∀ v ∈ items, v.Opens ∧ Reads read v v.normal) (object : Reader Value) :
    Reads (valueWith (arrayOf read) object) (.array items) (Value.array items).normal := by
  intro depth cs rest hcs _
  obtain ⟨inside, hinside, hitems⟩ := elements_array (run_append h []) hcs
  simp only [valueWith, hinside]
  rw [arrayOf, hitems, Value.normal, normalItems_eq_map]
  rfl

theorem reads_object {read : Reader Value} {ms : List (String × Value)}
    (h : ∀ m ∈ ms, Reads read m.2 m.2.normal) (array : Reader Value) :
    Reads (valueWith array (objectOf read)) (.object ms) (Value.object ms).normal := by
  have htakes (entries : List (String × Value)) : ∀ m ∈ ms, Takes (objectMember read) entries m
      (SortedMap.insertEntry m.1 m.2.normal entries) := by
    intro m hm depth rest hrest
    simp [objectMember, memberText, string_escape, colon_cons, (h m hm).after_blank depth hrest,
      bind, Except.bind]
  intro depth cs rest hcs _
  obtain ⟨inside, hinside, hmembers⟩ := members_object (run_foldl htakes []) hcs
  simp only [valueWith, hinside]
  rw [objectOf_eq_bind, hmembers, Value.normal, normalMembers_eq_map, SortedMap.entries_ofList,
    List.foldl_map]
  rfl

theorem reads_value {v : Value} (h : v.Fits depth) : Reads (value depth) v v.normal := by
  induction h with
  | null depth =>
    obtain ⟨array, object, h⟩ := value_eq depth
    exact h ▸ reads_null array object
  | boolean depth b =>
    obtain ⟨array, object, h⟩ := value_eq depth
    exact h ▸ reads_boolean array object b
  | natural depth n =>
    obtain ⟨array, object, h⟩ := value_eq depth
    exact h ▸ reads_natural array object n
  | string depth s =>
    obtain ⟨array, object, h⟩ := value_eq depth
    exact h ▸ reads_string array object s
  | array hitems ih => exact reads_array (fun v hv => ⟨(hitems v hv).opens, ih v hv⟩) _
  | object _ ih => exact reads_object ih _

/-! ## Typed values -/

theorem reads_readString (s : String) : Reads readString (.string s) s := by
  intro depth cs rest hcs _
  rw [skipBlank_string] at hcs
  simp [readString, hcs, string_escape]

theorem reads_readBoolean (b : Bool) : Reads readBoolean (.boolean b) b := by
  intro depth cs rest hcs _
  cases b with
  | true =>
    rw [Value.textAt, List.cons_append, skipBlank_cons rfl] at hcs
    simp [readBoolean, hcs, literal, bind, Except.bind]
  | false =>
    rw [Value.textAt, List.cons_append, skipBlank_cons rfl] at hcs
    simp [readBoolean, hcs, literal, bind, Except.bind]

theorem reads_readOptionalString (s : String) :
    Reads readOptionalString (.string s) (some s) := by
  intro depth cs rest hcs hrest
  have hread := reads_readString s depth cs rest hcs hrest
  rw [skipBlank_string] at hcs
  simp [readOptionalString, hcs, hread, bind, Except.bind]

theorem reads_readMap {σ : Type} {member : σ → Reader σ} {st st' : σ} {ms : List (String × Value)}
    (hrun : Run (Takes member) st ms st') : Reads (readMap member st) (.object ms) st' := by
  intro depth cs rest hcs _
  obtain ⟨inside, hinside, hmembers⟩ := members_object hrun hcs
  simp only [readMap, hinside]
  exact hmembers

/-- A map is put together from its printed entries. -/
theorem reads_readMap_entries {κ α : Type} [Ord κ] [Std.TransOrd κ] [Std.LawfulEqOrd κ]
    {member : SortedMap κ α → Reader (SortedMap κ α)} {entry : κ × α → String × Value}
    (m : SortedMap κ α)
    (h : ∀ m' : SortedMap κ α, ∀ e ∈ m.entries, Takes member m' (entry e) (m'.insert e.1 e.2)) :
    Reads (readMap member .empty) (.object (m.entries.map entry)) m := by
  have hrun := run_map (run_foldl h .empty)
  rw [← SortedMap.ofList, SortedMap.ofList_entries] at hrun
  exact reads_readMap hrun

theorem naturalName_toDigits (n : UInt64) (rest : List Char) :
    naturalName (Nat.toDigits 10 n.toNat ++ '"' :: rest) = .ok (n, rest) := by
  have hnumber := number_toDigits n (ends_quote rest)
  obtain ⟨d, ds, hd, hdigit⟩ := exists_toDigits n.toNat
  rw [hd, List.cons_append] at hnumber ⊢
  have hminus : d ≠ '-' := by rintro rfl; cases hdigit
  simp [naturalName, hdigit, hnumber, bind, Except.bind]

end Json
end NumberWords
