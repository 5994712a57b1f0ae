import Mathlib.Data.List.Nodup
import NumberWords.Json.Value
import NumberWords.Proofs.SortedMap

/-!
JSON values whose objects have their members in order of their names.

A value that has been read is of this form.  Its members are those of the value as it was written,
in another place.
-/

namespace NumberWords
namespace Json

def Value.members : Value → List (String × Value)
  | .object members => members
  | _ => []

mutual
/-- The value with the members of objects in order of their names. -/
def Value.normal : Value → Value
  | .null => .null
  | .boolean b => .boolean b
  | .number n => .number n
  | .string s => .string s
  | .array items => .array (normalItems items)
  | .object members => .object (SortedMap.ofList (normalMembers members)).entries

def normalItems : List Value → List Value
  | [] => []
  | v :: items => v.normal :: normalItems items

def normalMembers : List (String × Value) → List (String × Value)
  | [] => []
  | (name, v) :: members => (name, v.normal) :: normalMembers members
end

@[simp] theorem normalItems_eq_map (items : List Value) :
    normalItems items = items.map Value.normal := by
  induction items with
  | nil => rfl
  | cons v items ih => rw [normalItems, ih, List.map_cons]

@[simp] theorem normalMembers_eq_map (ms : List (String × Value)) :
    normalMembers ms = ms.map fun m => (m.1, m.2.normal) := by
  induction ms with
  | nil => rfl
  | cons m ms ih => rw [normalMembers, ih, List.map_cons]

variable {m : String × Value} {ms : List (String × Value)}

theorem members_normal (ms : List (String × Value)) :
    (Value.object ms).normal.members
      = (SortedMap.ofList (ms.map fun m => (m.1, m.2.normal))).entries := by
  rw [Value.normal, Value.members, normalMembers_eq_map]

theorem normal_object (ms : List (String × Value)) :
    (Value.object ms).normal = .object (Value.object ms).normal.members := by
  rw [Value.normal, Value.members]

theorem mem_members_normal (hm : m ∈ (Value.object ms).normal.members) :
    ∃ m' ∈ ms, m = (m'.1, m'.2.normal) := by
  rw [members_normal] at hm
  obtain ⟨m', hm', rfl⟩ := List.mem_map.1 (SortedMap.mem_of_mem_ofList hm)
  exact ⟨m', hm', rfl⟩

theorem mem_names_normal {name : String} :
    name ∈ (Value.object ms).normal.members.map (·.1) ↔ name ∈ ms.map (·.1) := by
  rw [members_normal, ← SortedMap.keys, SortedMap.mem_keys_ofList]
  simp

theorem mem_of_lookup {α : Type} {l : List (String × α)} {name : String} {a : α}
    (h : l.lookup name = some a) : (name, a) ∈ l := by
  obtain ⟨before, after, rfl, -⟩ := List.lookup_eq_some_iff.1 h
  exact List.mem_append_right _ List.mem_cons_self

theorem member?_normal (hnodup : (ms.map (·.1)).Nodup) (hm : m ∈ ms) :
    (Value.object ms).normal.member? m.1 = some m.2.normal := by
  rw [normal_object, Value.member?]
  cases hlookup : (Value.object ms).normal.members.lookup m.1 with
  | none =>
    obtain ⟨e, he, hname⟩ := List.mem_map.1 (mem_names_normal.2 (List.mem_map_of_mem hm))
    have hne := List.lookup_eq_none_iff.1 hlookup e he
    simp [hname] at hne
  | some v =>
    obtain ⟨m', hm', heq⟩ := mem_members_normal (mem_of_lookup hlookup)
    obtain ⟨hname, rfl⟩ := Prod.mk.inj heq
    rw [List.inj_on_of_nodup_map hnodup hm hm' hname]

/-- The member of a name is the last of those that are written. -/
theorem member?_of_stands {name : String} {v : Value} (h : SortedMap.Stands ms (name, v)) :
    (Value.object (SortedMap.ofList ms).entries).member? name = some v := by
  have hmem := SortedMap.mem_ofList.2 h
  rw [Value.member?]
  cases hlookup : (SortedMap.ofList ms).entries.lookup name with
  | none =>
    have hne := List.lookup_eq_none_iff.1 hlookup _ hmem
    simp at hne
  | some v' =>
    have heq := SortedMap.eq_of_key_eq (mem_of_lookup hlookup) hmem rfl
    rw [(Prod.mk.inj heq).2]

end Json
end NumberWords
