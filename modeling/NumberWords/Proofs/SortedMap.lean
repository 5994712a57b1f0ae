import Mathlib.Data.List.Nodup
import Mathlib.Data.List.Perm.Subperm
import Mathlib.Tactic.Tauto
import NumberWords.SortedMap

/-!
Maps put together from lists of bindings.

Where two bindings of a list have one key the later one counts (`mem_foldl_insert`), so a list loses
nothing exactly when its keys differ (`size_ofList_eq_iff`).  Where each binding of the list is one
of a given map and each key of the map has a binding in the list, the list puts the map together
again, in whatever order it stands (`ofList_eq`).
-/

namespace NumberWords
namespace SortedMap

variable {κ α : Type} [Ord κ] {l : List (κ × α)} {m n : SortedMap κ α}

@[simp] theorem isEmpty_eq_false_iff : m.isEmpty = false ↔ m ≠ empty := by
  simp [isEmpty, SortedMap.ext_iff, empty]

variable [Std.LawfulEqOrd κ]

theorem ne_of_compare_lt {k k' : κ} (h : compare k k' = .lt) : k ≠ k' := by
  rintro rfl
  rw [Std.ReflOrd.compare_self] at h
  cases h

theorem mem_keys_insertEntry {k k' : κ} {a : α} :
    k' ∈ (insertEntry k a l).map (·.1) ↔ k' = k ∨ k' ∈ l.map (·.1) := by
  induction l with
  | nil => simp [insertEntry]
  | cons e rest ih =>
    simp only [insertEntry]
    split
    · simp
    · next he =>
      have he : k = e.1 := Std.LawfulEqOrd.eq_of_compare he
      simp [he]
    · simp only [List.map_cons, List.mem_cons, ih]
      exact or_left_comm

theorem keys_nodup (m : SortedMap κ α) : m.keys.Nodup :=
  List.pairwise_map.2 (m.ascending.imp ne_of_compare_lt)

theorem entries_nodup (m : SortedMap κ α) : m.entries.Nodup :=
  m.keys_nodup.of_map

/-- A key has one binding. -/
theorem eq_of_key_eq {e e' : κ × α} (he : e ∈ m.entries) (he' : e' ∈ m.entries)
    (hk : e.1 = e'.1) : e = e' := by
  have hsep := m.ascending
  generalize m.entries = l at he he' hsep
  induction hsep with
  | nil => cases he
  | cons hlt _ ih =>
    rcases List.mem_cons.1 he with rfl | h <;> rcases List.mem_cons.1 he' with rfl | h'
    · rfl
    · exact absurd hk (ne_of_compare_lt (hlt _ h'))
    · exact absurd hk.symm (ne_of_compare_lt (hlt _ h))
    · exact ih h h'

variable [Std.TransOrd κ]

theorem eq_of_mem_iff (h : ∀ e, e ∈ m.entries ↔ e ∈ n.entries) : m = n := by
  refine ext (List.Perm.eq_of_pairwise (fun a b _ _ hab hba => ?_) m.ascending n.ascending
    ((List.perm_ext_iff_of_nodup m.entries_nodup n.entries_nodup).2 h))
  exact absurd hba (Std.OrientedCmp.not_lt_of_lt hab)

/-! ## Later bindings -/

variable {e : κ × α}

theorem mem_insertEntry_iff {k : κ} {a : α}
    (h : l.Pairwise (fun a b => compare a.1 b.1 = .lt)) :
    e ∈ insertEntry k a l ↔ e = (k, a) ∨ e.1 ≠ k ∧ e ∈ l := by
  induction l with
  | nil => simp [insertEntry]
  | cons e' rest ih =>
    obtain ⟨he', hrest⟩ := List.pairwise_cons.1 h
    simp only [insertEntry]
    split
    · next hk =>
      have hne : e ∈ e' :: rest → e.1 ≠ k := by
        intro he
        rcases List.mem_cons.1 he with rfl | he
        · exact (ne_of_compare_lt hk).symm
        · exact (ne_of_compare_lt (Std.TransCmp.lt_trans hk (he' e he))).symm
      rw [List.mem_cons]
      exact or_congr_right (iff_and_self.2 hne)
    · next hk =>
      obtain rfl := Std.LawfulEqOrd.eq_of_compare hk
      have hne : e ∈ rest → e.1 ≠ e'.1 := fun he => (ne_of_compare_lt (he' e he)).symm
      rw [List.mem_cons, List.mem_cons]
      refine or_congr_right ⟨fun he => ⟨hne he, .inr he⟩, ?_⟩
      rintro ⟨hk, rfl | he⟩
      · exact absurd rfl hk
      · exact he
    · next hk =>
      have hne : e'.1 ≠ k := ne_of_compare_lt (Std.OrientedCmp.gt_iff_lt.1 hk)
      rw [List.mem_cons, List.mem_cons, ih hrest]
      constructor
      · rintro (rfl | rfl | ⟨hk, he⟩)
        · exact .inr ⟨hne, .inl rfl⟩
        · exact .inl rfl
        · exact .inr ⟨hk, .inr he⟩
      · rintro (rfl | ⟨hk, rfl | he⟩)
        · exact .inr (.inl rfl)
        · exact .inl rfl
        · exact .inr (.inr ⟨hk, he⟩)

theorem mem_insert {k : κ} {a : α} :
    e ∈ (m.insert k a).entries ↔ e = (k, a) ∨ e.1 ≠ k ∧ e ∈ m.entries :=
  mem_insertEntry_iff m.ascending

/-- A binding that no later one of the list replaces. -/
def Stands (l : List (κ × α)) (e : κ × α) : Prop :=
  ∃ before after, l = before ++ e :: after ∧ e.1 ∉ after.map (·.1)

omit [Ord κ] [Std.LawfulEqOrd κ] [Std.TransOrd κ] in
theorem stands_cons {e' : κ × α} :
    Stands (e' :: l) e ↔ Stands l e ∨ e.1 ∉ l.map (·.1) ∧ e = e' := by
  constructor
  · rintro ⟨before, after, hl, hlast⟩
    cases before with
    | nil =>
      obtain ⟨rfl, rfl⟩ := List.cons.inj hl
      exact .inr ⟨hlast, rfl⟩
    | cons b before => exact .inl ⟨before, after, (List.cons.inj hl).2, hlast⟩
  · rintro (⟨before, after, rfl, hlast⟩ | ⟨hlast, rfl⟩)
    · exact ⟨e' :: before, after, rfl, hlast⟩
    · exact ⟨[], l, rfl, hlast⟩

omit [Ord κ] [Std.LawfulEqOrd κ] [Std.TransOrd κ] in
theorem stands_iff_mem (h : (l.map (·.1)).Nodup) : Stands l e ↔ e ∈ l := by
  constructor
  · rintro ⟨before, after, rfl, -⟩
    exact List.mem_append_right before List.mem_cons_self
  · intro he
    obtain ⟨before, after, rfl⟩ := List.append_of_mem he
    rw [List.map_append, List.map_cons] at h
    exact ⟨before, after, rfl, (List.nodup_cons.1 h.of_append_right).1⟩

theorem mem_foldl_insert :
    e ∈ (l.foldl (fun m e => m.insert e.1 e.2) m).entries
      ↔ Stands l e ∨ e.1 ∉ l.map (·.1) ∧ e ∈ m.entries := by
  induction l generalizing m with
  | nil => simp [Stands]
  | cons e' l ih =>
    rw [List.foldl_cons, ih, mem_insert, stands_cons, List.map_cons, List.mem_cons]
    tauto

/-! ## Lists of bindings -/

def ofList (l : List (κ × α)) : SortedMap κ α := l.foldl (fun m e => m.insert e.1 e.2) empty

theorem entries_foldl_insert (l : List (κ × α)) (m : SortedMap κ α) :
    (l.foldl (fun m e => m.insert e.1 e.2) m).entries
      = l.foldl (fun es e => insertEntry e.1 e.2 es) m.entries := by
  induction l generalizing m with
  | nil => rfl
  | cons e rest ih => exact ih _

theorem entries_ofList (l : List (κ × α)) :
    (ofList l).entries = l.foldl (fun es e => insertEntry e.1 e.2 es) [] :=
  entries_foldl_insert l empty

theorem entries_ofList_concat (l : List (κ × α)) (k : κ) (a : α) :
    (ofList (l ++ [(k, a)])).entries = insertEntry k a (ofList l).entries := by
  rw [ofList, List.foldl_append]
  rfl

theorem mem_ofList : e ∈ (ofList l).entries ↔ Stands l e := by
  rw [ofList, mem_foldl_insert]
  simp [empty]

theorem mem_of_mem_ofList (he : e ∈ (ofList l).entries) : e ∈ l := by
  obtain ⟨before, after, rfl, -⟩ := mem_ofList.1 he
  exact List.mem_append_right before List.mem_cons_self

theorem mem_keys_ofList {k : κ} : k ∈ (ofList l).keys ↔ k ∈ l.map (·.1) := by
  suffices h : ∀ es, k ∈ (l.foldl (fun es e => insertEntry e.1 e.2 es) es).map (·.1)
      ↔ k ∈ l.map (·.1) ∨ k ∈ es.map (·.1) by
    rw [keys, entries_ofList, h]
    simp
  induction l with
  | nil => simp
  | cons e rest ih =>
    intro es
    rw [List.foldl_cons, ih, mem_keys_insertEntry, List.map_cons, List.mem_cons]
    tauto

theorem ofList_eq (hmem : ∀ e ∈ l, e ∈ m.entries) (hkeys : ∀ k ∈ m.keys, k ∈ l.map (·.1)) :
    ofList l = m := by
  refine eq_of_mem_iff fun e => ⟨fun he => hmem e (mem_of_mem_ofList he), fun he => ?_⟩
  have hk : e.1 ∈ (ofList l).keys := mem_keys_ofList.2 (hkeys _ (List.mem_map_of_mem he))
  obtain ⟨e', he', hk⟩ := List.mem_map.1 hk
  rwa [← eq_of_key_eq (hmem e' (mem_of_mem_ofList he')) he hk]

@[simp] theorem ofList_entries (m : SortedMap κ α) : ofList m.entries = m :=
  ofList_eq (fun _ => id) fun _ => id

theorem perm_ofList (h : (l.map (·.1)).Nodup) : (ofList l).entries.Perm l :=
  (List.perm_ext_iff_of_nodup (entries_nodup _) h.of_map).2 fun _ =>
    mem_ofList.trans (stands_iff_mem h)

/-- As many bindings as the list has are left when no two of them have one key. -/
theorem size_ofList_eq_iff : (ofList l).size = l.length ↔ (l.map (·.1)).Nodup := by
  refine ⟨fun h => ?_, fun h => (perm_ofList h).length_eq⟩
  have hsub : (ofList l).keys ⊆ l.map (·.1) := fun _ => mem_keys_ofList.1
  have hlength : (l.map (·.1)).length ≤ (ofList l).keys.length := by
    rw [keys, List.length_map, List.length_map, ← h]
    exact Nat.le_refl _
  have hkeys := List.subperm_of_subset (keys_nodup (ofList l)) hsub
  exact (hkeys.perm_of_length_le hlength).nodup_iff.1 (keys_nodup _)

/-! ## Overlays -/

def overlay (m n : SortedMap κ α) : SortedMap κ α :=
  n.entries.foldl (fun m e => m.insert e.1 e.2) m

theorem mem_overlay :
    e ∈ (m.overlay n).entries ↔ e ∈ n.entries ∨ e.1 ∉ n.keys ∧ e ∈ m.entries := by
  rw [overlay, mem_foldl_insert, stands_iff_mem n.keys_nodup]
  rfl

end SortedMap
end NumberWords
