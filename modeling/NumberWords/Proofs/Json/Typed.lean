import Mathlib.Data.List.TakeWhile
import NumberWords.Proofs.Json.Lockstep
import NumberWords.Proofs.Json.Reader

/-!
Typed values beside generic ones.

A typed reader takes less than a generic one and ends where that ends: it fails on a value of
another type, and what it takes it takes whole.  An object's generic value keeps the last of members
with one name; `written` keeps all of them in the order in which they stand (`objectOf_eq`).
-/

namespace NumberWords
namespace Json

open Fallible

variable {cs r : List Char} {depth : Nat}

/-! ## Names and values -/

theorem mismatch_ne_ok {α : Type} {wanted : Wanted} {x : α × List Char} :
    mismatch wanted cs ≠ .ok x := by
  intro h
  obtain ⟨v, -, h⟩ := bind_eq_ok.1 h
  cases h

theorem agree_readString (depth : Nat) : Agree readString (value depth) := by
  intro cs a r b r' hp hq
  obtain ⟨array, object, hdepth⟩ := value_eq depth
  rw [readString] at hp
  rw [hdepth, valueWith] at hq
  split at hp
  · next hcs =>
    rw [hcs] at hq
    exact (Agree.refl string).map.symm hp hq
  · exact absurd hp mismatch_ne_ok

theorem agree_readBoolean (depth : Nat) : Agree readBoolean (value depth) := by
  intro cs a r b r' hp hq
  obtain ⟨array, object, hdepth⟩ := value_eq depth
  rw [readBoolean] at hp
  rw [hdepth, valueWith] at hq
  split at hp
  · next hcs =>
    rw [hcs] at hq
    obtain ⟨⟨⟨⟩, cs₁⟩, hword, hp⟩ := bind_eq_ok.1 hp
    cases hp
    exact ((Agree.refl _).map (g := fun _ => Value.boolean true)).symm hword hq
  · next hcs =>
    rw [hcs] at hq
    obtain ⟨⟨⟨⟩, cs₁⟩, hword, hp⟩ := bind_eq_ok.1 hp
    cases hp
    exact ((Agree.refl _).map (g := fun _ => Value.boolean false)).symm hword hq
  · exact absurd hp mismatch_ne_ok

theorem agree_readOptionalString (depth : Nat) : Agree readOptionalString (value depth) := by
  intro cs a r b r' hp hq
  obtain ⟨array, object, hdepth⟩ := value_eq depth
  rw [readOptionalString] at hp
  split at hp
  · next hcs =>
    rw [hdepth, valueWith, hcs] at hq
    obtain ⟨⟨⟨⟩, cs₁⟩, hword, hp⟩ := bind_eq_ok.1 hp
    cases hp
    exact ((Agree.refl _).map (g := fun _ => Value.null)).symm hword hq
  · exact (agree_readString depth).map (g := some) hp hq

/-- A natural number has neither a fraction nor an exponent. -/
theorem numberOf?_natural {negative : Bool} {whole : List Char} {fraction : Option (List Char)}
    {exponent : Option Int} {k : UInt64}
    (h : numberOf? negative whole fraction exponent = some (.natural k)) :
    negative = false ∧ fraction = none ∧ exponent = none := by
  rw [numberOf?] at h
  dsimp only at h
  split at h
  · next hwhole =>
    simp only [Bool.and_eq_true, Option.isNone_iff_eq_none] at hwhole
    refine ⟨?_, hwhole.1⟩
    cases negative with
    | false => rfl
    | true =>
      -- A signed number is negative or, as a signed zero is, a floating-point number.
      rw [wholeNumber, if_neg (by decide)] at h
      split at h <;> cases h
  · obtain ⟨x, -, h⟩ := Option.map_eq_some_iff.1 h
    cases h

theorem fractionDigits_none (h : fractionDigits cs = .ok (none, r)) : cs = r := by
  rw [fractionDigits.eq_def] at h
  split at h
  · obtain ⟨⟨ds, rest⟩, -, h⟩ := bind_eq_ok.1 h
    cases h
  · cases h
    rfl

theorem exponent_none (h : exponent cs = .ok (none, r)) : cs = r := by
  rw [exponent.eq_def] at h
  split at h
  · split at h
    · obtain ⟨⟨ds, rest⟩, -, h⟩ := bind_eq_ok.1 h
      cases h
    · cases h
      rfl
  · cases h
    rfl

theorem wholeDigits_append {ds : List Char} (h : wholeDigits cs = .ok (ds, r)) :
    cs = ds ++ r ∧ ∀ c ∈ ds, c.isDigit = true := by
  obtain ⟨rfl, rfl⟩ := digits_eq_ok (wholeDigits_eq_ok h)
  exact ⟨List.takeWhile_append_dropWhile.symm, fun c hc => List.mem_takeWhile_imp hc⟩

theorem number_natural {negative : Bool} {k : UInt64}
    (h : number negative cs = .ok (.natural k, r)) :
    negative = false ∧ ∃ ds, cs = ds ++ r ∧ ∀ c ∈ ds, c.isDigit = true := by
  obtain ⟨⟨whole, cs₁⟩, hwhole, h⟩ := bind_eq_ok.1 h
  obtain ⟨⟨fraction, cs₂⟩, hfraction, h⟩ := bind_eq_ok.1 h
  obtain ⟨⟨exponent, cs₃⟩, hexponent, h⟩ := bind_eq_ok.1 h
  dsimp only at h
  split at h
  · next n hnumber =>
    cases h
    obtain ⟨hsign, rfl, rfl⟩ := numberOf?_natural hnumber
    obtain rfl := fractionDigits_none hfraction
    obtain rfl := exponent_none hexponent
    exact ⟨hsign, whole, wholeDigits_append hwhole⟩
  · cases h

/-- What a name that is a number ends with. -/
theorem number_of_naturalName {negative : Bool} {k : UInt64}
    (h : (do
      let (n, rest) ← number negative cs
      match n, rest with
      | .natural k, '"' :: rest => .ok (k, rest)
      | .natural _, _ => .error .malformed
      | n, _ => .error (.shape (.field (.mismatch (.number n) .natural)))
      : Except JsonFault (UInt64 × List Char)) = .ok (k, r)) :
    number negative cs = .ok (.natural k, '"' :: r) := by
  obtain ⟨⟨n, rest⟩, hnumber, h⟩ := bind_eq_ok.1 h
  dsimp only at h
  split at h <;> cases h
  exact hnumber

theorem naturalName_eq_ok {k : UInt64} (h : naturalName cs = .ok (k, r)) :
    ∃ ds, cs = ds ++ '"' :: r ∧ ∀ c ∈ ds, c.isDigit = true := by
  unfold naturalName at h
  split at h
  · have hsign := (number_natural (number_of_naturalName h)).1
    cases hsign
  · split at h
    · exact (number_natural (number_of_naturalName h)).2
    · cases h
  · cases h

/-- A name that is a number ends where it ends as a string. -/
theorem agree_naturalName : Agree naturalName string := by
  intro cs a r b r' hp hq
  obtain ⟨ds, rfl, hds⟩ := naturalName_eq_ok hp
  have hstring := string_escape (String.ofList ds) r
  rw [String.toList_ofList, escape_digits hds] at hstring
  cases hstring.symm.trans hq
  exact ⟨rfl, trivial⟩

/-! ## Objects -/

theorem agree_readMap {κ α σ : Type} {p : Reader κ} {q : Reader α} {f : σ → κ → α → σ} {st : σ}
    (hp : Agree p string) (hq : ∀ depth, Agree q (value depth)) :
    Agree (readMap (fun st cs => do
      let (k, cs) ← p cs
      let ((), cs) ← colon cs
      let (a, cs) ← q cs
      .ok (f st k a, cs)) st) (value depth) := by
  intro cs a r b r' hread hvalue
  rw [readMap] at hread
  split at hread
  · next rest hcs =>
    cases depth with
    | zero =>
      rw [value, valueWith, hcs] at hvalue
      cases hvalue
    | succ depth =>
      rw [value, valueWith, hcs] at hvalue
      obtain ⟨⟨entries, rest⟩, hmembers, hvalue⟩ := bind_eq_ok.1 hvalue
      cases hvalue
      refine lockstep_members (R := fun _ _ => True) (fun st entries _ => ?_) trivial hread hmembers
      intro cs a r b r' hp' hq'
      obtain ⟨x, hentry, -⟩ := entry_of_insert (f := f st) hp'
      obtain ⟨m, hentry'⟩ := entry_of_objectMember hq'
      exact agree_entry hp (hq depth) hentry hentry'
  · exact absurd hread mismatch_ne_ok

def writtenMember (item : Reader Value) (ms : List (String × Value)) :
    Reader (List (String × Value)) := fun cs => do
  let (m, rest) ← entry string item cs
  .ok (ms ++ [m], rest)

def written (item : Reader Value) : Reader (List (String × Value)) := fun cs =>
  members (writtenMember item) (cs.length + 1) true [] cs

theorem objectMember_ofList (item : Reader Value) (ms : List (String × Value)) (cs : List Char) :
    objectMember item (SortedMap.ofList ms).entries cs
      = (writtenMember item ms cs).map (Prod.map (fun ms => (SortedMap.ofList ms).entries) id) := by
  unfold objectMember writtenMember entry
  rcases string cs with e | ⟨name, cs₁⟩
  · rfl
  rcases hcolon : colon cs₁ with e | ⟨⟨⟩, cs₂⟩
  · simp [hcolon, bind, Except.bind, Except.map]
  rcases hvalue : item cs₂ with e | ⟨v, cs₃⟩
  · simp [hcolon, hvalue, bind, Except.bind, Except.map]
  · simp [hcolon, hvalue, SortedMap.entries_ofList_concat, bind, Except.bind, Except.map]

/-- Of the members with one name an object keeps the last. -/
theorem objectOf_eq (item : Reader Value) (cs : List Char) :
    objectOf item cs
      = (written item cs).map (Prod.map (fun ms => .object (SortedMap.ofList ms).entries) id) := by
  have hmembers : members (objectMember item) (cs.length + 1) true (SortedMap.ofList []).entries cs
      = (written item cs).map (Prod.map (fun ms => (SortedMap.ofList ms).entries) id) :=
    members_map (f := fun ms => (SortedMap.ofList ms).entries) (objectMember_ofList item)
  have hnil : (SortedMap.ofList ([] : List (String × Value))).entries = [] := rfl
  rw [objectOf_eq_bind, ← hnil, hmembers]
  cases written item cs <;> rfl

/-- An object is read member by member, and nothing else is an object. -/
theorem value_eq_object {entries : List (String × Value)} :
    value (depth + 1) cs = .ok (.object entries, r) ↔ ∃ rest ms, skipBlank cs = '{' :: rest ∧
      written (value depth) rest = .ok (ms, r) ∧ entries = (SortedMap.ofList ms).entries := by
  have hinside {rest : List Char} : objectOf (value depth) rest = .ok (.object entries, r) ↔
      ∃ ms, written (value depth) rest = .ok (ms, r) ∧
        entries = (SortedMap.ofList ms).entries := by
    rw [objectOf_eq]
    rcases written (value depth) rest with e | ⟨ms, rest'⟩
    · simp [Except.map]
    · simp only [Except.map, Except.ok.injEq, Prod.map, Prod.mk.injEq, Value.object.injEq, id]
      constructor
      · rintro ⟨rfl, rfl⟩
        exact ⟨ms, ⟨rfl, rfl⟩, rfl⟩
      · rintro ⟨ms', ⟨rfl, rfl⟩, rfl⟩
        exact ⟨rfl, rfl⟩
  constructor
  · intro h
    rw [value, valueWith] at h
    split at h
    case h_1 => cases h
    case h_7 rest hcs =>
      obtain ⟨ms, hms, hentries⟩ := hinside.1 h
      exact ⟨rest, ms, hcs, hms, hentries⟩
    case h_9 =>
      split at h
      · obtain ⟨n, -, h⟩ := bind_eq_ok.1 h
        cases h
      · cases h
    -- What the other readers make is no object.
    all_goals
      obtain ⟨x, -, h⟩ := bind_eq_ok.1 h
      cases h
  · rintro ⟨rest, ms, hcs, hms, rfl⟩
    rw [value, valueWith, hcs]
    exact hinside.2 ⟨ms, hms, rfl⟩

def writtenMembers (text : String) : Except JsonFault (List (String × Value)) :=
  match skipBlank text.toList with
  | '{' :: rest => do
    let (ms, rest) ← written (value (deepestNesting - 1)) rest
    endOfText rest
    .ok ms
  | _ => .error .malformed

theorem writtenMembers_eq_ok {text : String} {ms : List (String × Value)} :
    writtenMembers text = .ok ms ↔ ∃ rest rest', skipBlank text.toList = '{' :: rest ∧
      written (value (deepestNesting - 1)) rest = .ok (ms, rest') ∧ endOfText rest' = .ok () := by
  constructor
  · intro h
    unfold writtenMembers at h
    split at h
    · next rest hcs =>
      obtain ⟨⟨ms', rest'⟩, hms, h⟩ := bind_eq_ok.1 h
      obtain ⟨⟨⟩, hend, h⟩ := bind_eq_ok.1 h
      cases h
      exact ⟨rest, rest', hcs, hms, hend⟩
    · cases h
  · rintro ⟨rest, rest', hcs, hms, hend⟩
    simp [writtenMembers, hcs, hms, hend, bind, Except.bind]

theorem parse_eq_object {text : String} {entries : List (String × Value)} :
    parse text = .ok (.object entries) ↔
      ∃ ms, writtenMembers text = .ok ms ∧ entries = (SortedMap.ofList ms).entries := by
  constructor
  · intro h
    obtain ⟨⟨v, rest'⟩, hvalue, h⟩ := bind_eq_ok.1 h
    obtain ⟨⟨⟩, hend, h⟩ := bind_eq_ok.1 h
    cases h
    obtain ⟨rest, ms, hcs, hms, hentries⟩ := value_eq_object.1 hvalue
    exact ⟨ms, writtenMembers_eq_ok.2 ⟨rest, rest', hcs, hms, hend⟩, hentries⟩
  · rintro ⟨ms, hms, hentries⟩
    obtain ⟨rest, rest', hcs, hms, hend⟩ := writtenMembers_eq_ok.1 hms
    have hvalue : value deepestNesting text.toList = .ok (.object entries, rest') :=
      value_eq_object.2 ⟨rest, ms, hcs, hms, hentries⟩
    simp [parse, hvalue, hend, bind, Except.bind]

end Json
end NumberWords
