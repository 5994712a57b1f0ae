/-!
Finite maps as lists of entries whose keys ascend strictly.  The order is part of the type, so two
maps with the same bindings are equal, and iteration follows the keys.
-/

namespace NumberWords

structure SortedMap (κ α : Type) [Ord κ] where
  entries : List (κ × α)
  ascending : entries.Pairwise (fun a b => compare a.1 b.1 = .lt) := by decide

namespace SortedMap

def insertEntry {κ α : Type} [Ord κ] (k : κ) (a : α) : List (κ × α) → List (κ × α)
  | [] => [(k, a)]
  | e :: rest =>
    match compare k e.1 with
    | .lt => (k, a) :: e :: rest
    | .eq => (k, a) :: rest
    | .gt => e :: insertEntry k a rest

variable {κ α : Type} [Ord κ]

theorem mem_insertEntry {k : κ} {a : α} {e : κ × α} {l : List (κ × α)}
    (h : e ∈ insertEntry k a l) : e = (k, a) ∨ e ∈ l := by
  induction l with
  | nil => simpa [insertEntry] using h
  | cons e' rest ih =>
    simp only [insertEntry] at h
    split at h
    · simpa using h
    · rcases List.mem_cons.1 h with h | h
      · exact .inl h
      · exact .inr (List.mem_cons_of_mem _ h)
    · rcases List.mem_cons.1 h with h | h
      · exact .inr (h ▸ List.mem_cons_self)
      · exact (ih h).imp_right (List.mem_cons_of_mem _)

theorem insertEntry_ascending [Std.TransOrd κ] [Std.LawfulEqOrd κ] (k : κ) (a : α)
    {l : List (κ × α)} (h : l.Pairwise (fun a b => compare a.1 b.1 = .lt)) :
    (insertEntry k a l).Pairwise (fun a b => compare a.1 b.1 = .lt) := by
  induction l with
  | nil => simp [insertEntry]
  | cons e rest ih =>
    obtain ⟨he, hrest⟩ := List.pairwise_cons.1 h
    simp only [insertEntry]
    split
    · next hk =>
      refine List.pairwise_cons.2 ⟨fun b hb => ?_, h⟩
      rcases List.mem_cons.1 hb with rfl | hb
      · exact hk
      · exact Std.TransCmp.lt_trans hk (he b hb)
    · next hk =>
      have hk := Std.LawfulEqOrd.eq_of_compare hk
      exact List.pairwise_cons.2 ⟨fun b hb => hk ▸ he b hb, hrest⟩
    · next hk =>
      refine List.pairwise_cons.2 ⟨fun b hb => ?_, ih hrest⟩
      rcases mem_insertEntry hb with rfl | hb
      · exact Std.OrientedCmp.gt_iff_lt.1 hk
      · exact he b hb

@[ext] theorem ext {m n : SortedMap κ α} (h : m.entries = n.entries) : m = n := by
  cases m; cases n; cases h; rfl

instance [DecidableEq κ] [DecidableEq α] : DecidableEq (SortedMap κ α) := fun m n =>
  decidable_of_iff (m.entries = n.entries) ⟨ext, fun h => h ▸ rfl⟩

def empty : SortedMap κ α := { entries := [], ascending := .nil }

instance : Inhabited (SortedMap κ α) := ⟨empty⟩

def isEmpty (m : SortedMap κ α) : Bool := m.entries.isEmpty

def size (m : SortedMap κ α) : Nat := m.entries.length

def keys (m : SortedMap κ α) : List κ := m.entries.map (·.1)

def values (m : SortedMap κ α) : List α := m.entries.map (·.2)

def find? [BEq κ] (m : SortedMap κ α) (k : κ) : Option α := m.entries.lookup k

/-- Bind a key; a later binding replaces an earlier one. -/
def insert [Std.TransOrd κ] [Std.LawfulEqOrd κ] (m : SortedMap κ α) (k : κ) (a : α) :
    SortedMap κ α :=
  { entries := insertEntry k a m.entries
    ascending := insertEntry_ascending k a m.ascending }

end SortedMap
end NumberWords
