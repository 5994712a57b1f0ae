import NumberWords.Files.Tree
import NumberWords.Proofs.Fallible

/-!
What the operations on a tree change and what they keep.

Following a path asks only for directories, so a path leads to the same place in every tree that
keeps them and the working directory (`KeepsDirectories.locate`).  Making directories along a path
adds nothing but directories at places on the way (`makeAlong_grows`), and moving a file changes the
entry of its place alone (`rename_eq_ok`).
-/

namespace NumberWords

open Fallible

def PathStep.next (p : Path) : PathStep → Except FileFault Path
  | .here => .ok p
  | .up => .ok p.tail
  | .into name =>
    if PathText.longestName < name.utf8ByteSize then .error .nameTooLong
    else .ok (name :: p)

namespace FileTree

variable {t t' t'' : FileTree} {p q r : Path} {e : Entry} {step : PathStep}
variable {steps rest : List PathStep}

/-! ## Entries -/

theorem lookup_remove (t : FileTree) (p q : Path) :
    (t.remove p).entries.lookup q = if q = p then none else t.entries.lookup q := by
  unfold remove
  induction t.entries with
  | nil => simp
  | cons entry entries ih =>
    obtain ⟨place, e⟩ := entry
    by_cases hplace : place = p
    · rw [List.filter_cons_of_neg (by simpa using hplace), ih, hplace]
      by_cases hq : q = p
      · rw [if_pos hq, if_pos hq]
      · rw [if_neg hq, if_neg hq, List.lookup_cons, beq_false_of_ne hq]
    · rw [List.filter_cons_of_pos (by simpa using hplace), List.lookup_cons, List.lookup_cons, ih]
      by_cases hq : q = place
      · simp [hq, hplace]
      · rw [beq_false_of_ne hq]

theorem entry?_put_of_ne (h : q ≠ p) : entry? (t.put p e) q = t.entry? q := by
  unfold entry? put
  rw [List.lookup_cons, beq_false_of_ne h, lookup_remove, if_neg h]

theorem entry?_put (h : ¬ p <:+ t.workingDirectory) : entry? (t.put p e) p = some e := by
  unfold entry? put
  simp [h]

theorem entry?_workingDirectory (t : FileTree) :
    t.entry? t.workingDirectory = some .directory := by
  unfold entry?
  simp

theorem not_suffix_of_entry?_ne (h : t.entry? p ≠ some .directory) :
    ¬ p <:+ t.workingDirectory := by
  intro hsuffix
  unfold entry? at h
  simp [hsuffix] at h

/-! ## Following a path -/

theorem enter_eq_ok : t.enter p = .ok q ↔ t.entry? p = some .directory ∧ p = q := by
  unfold enter
  split
  · next h => simp [h]
  · next h => simp [h]
  · next h => simp [h]

theorem walk_cons (t : FileTree) (p : Path) (step : PathStep) (rest : List PathStep) :
    t.walk p (step :: rest) = (do t.walk (← step.next (← t.enter p)) rest) := by
  rw [walk]
  cases t.enter p with
  | error fault => rfl
  | ok p =>
    cases step with
    | here => rfl
    | up => rfl
    | into name =>
      show (if PathText.longestName < name.utf8ByteSize then _ else _) =
        (if PathText.longestName < name.utf8ByteSize then Except.error FileFault.nameTooLong
          else Except.ok (name :: p)) >>= fun p => t.walk p rest
      split <;> rfl

theorem walk_cons_eq_ok :
    t.walk p (step :: rest) = .ok q ↔
      t.entry? p = some .directory ∧ ∃ r, step.next p = .ok r ∧ t.walk r rest = .ok q := by
  rw [walk_cons, bind_eq_ok]
  constructor
  · rintro ⟨p', henter, h⟩
    obtain ⟨hdirectory, rfl⟩ := enter_eq_ok.1 henter
    exact ⟨hdirectory, bind_eq_ok.1 h⟩
  · rintro ⟨hdirectory, h⟩
    exact ⟨p, enter_eq_ok.2 ⟨hdirectory, rfl⟩, bind_eq_ok.2 h⟩

theorem walk_append (t : FileTree) (p : Path) (steps rest : List PathStep) :
    t.walk p (steps ++ rest) = (do t.walk (← t.walk p steps) rest) := by
  induction steps generalizing p with
  | nil => rfl
  | cons step steps ih =>
    rw [List.cons_append, walk_cons, walk_cons]
    cases t.enter p with
    | error fault => rfl
    | ok p =>
      show (step.next p >>= fun p => t.walk p (steps ++ rest))
        = (step.next p >>= fun p => t.walk p steps) >>= fun p => t.walk p rest
      cases step.next p with
      | error fault => rfl
      | ok p => exact ih p

/-- Before the end of a path stands a directory. -/
theorem exists_walk_take {k : Nat} (h : t.walk p steps = .ok q) (hk : k < steps.length) :
    ∃ r, t.walk p (steps.take k) = .ok r ∧ t.entry? r = some .directory := by
  rw [← List.take_append_drop k steps, walk_append] at h
  obtain ⟨r, htake, hdrop⟩ := bind_eq_ok.1 h
  rw [List.drop_eq_getElem_cons hk] at hdrop
  exact ⟨r, htake, (walk_cons_eq_ok.1 hdrop).1⟩

theorem followToDirectory_eq_ok {origin : Path.Origin} :
    t.followToDirectory origin steps = .ok q ↔
      t.follow origin steps = .ok q ∧ t.entry? q = some .directory := by
  unfold followToDirectory
  rw [bind_eq_ok]
  constructor
  · rintro ⟨p, hfollow, henter⟩
    obtain ⟨hdirectory, rfl⟩ := enter_eq_ok.1 henter
    exact ⟨hfollow, hdirectory⟩
  · rintro ⟨hfollow, hdirectory⟩
    exact ⟨q, hfollow, enter_eq_ok.2 ⟨hdirectory, rfl⟩⟩

/-! ## Trees that keep what others have -/

/-- The directories of one tree are directories of the other, the working directory among them. -/
structure KeepsDirectories (t t' : FileTree) : Prop where
  workingDirectory : t'.workingDirectory = t.workingDirectory
  directory : ∀ p, t.entry? p = some .directory → t'.entry? p = some .directory

namespace KeepsDirectories

theorem walk (h : KeepsDirectories t t') (hwalk : t.walk p steps = .ok q) :
    t'.walk p steps = .ok q := by
  induction steps generalizing p with
  | nil => exact hwalk
  | cons step steps ih =>
    obtain ⟨hdirectory, r, hnext, hrest⟩ := walk_cons_eq_ok.1 hwalk
    exact walk_cons_eq_ok.2 ⟨h.directory p hdirectory, r, hnext, ih hrest⟩

theorem start (h : KeepsDirectories t t') (origin : Path.Origin) :
    t'.start origin = t.start origin := by
  cases origin with
  | root => rfl
  | workingDirectory => exact h.workingDirectory

theorem follow (h : KeepsDirectories t t') {origin : Path.Origin}
    (hfollow : t.follow origin steps = .ok q) : t'.follow origin steps = .ok q := by
  unfold FileTree.follow at hfollow ⊢
  rw [h.start]
  exact h.walk hfollow

theorem locate (h : KeepsDirectories t t') {path : String} (hplace : t.locate path = .ok q) :
    t'.locate path = .ok q := h.follow hplace

end KeepsDirectories

/-- The entries of one tree are entries of the other, which has the same working directory. -/
structure Keeps (t t' : FileTree) : Prop where
  workingDirectory : t'.workingDirectory = t.workingDirectory
  entry : ∀ p e, t.entry? p = some e → t'.entry? p = some e

theorem Keeps.refl (t : FileTree) : Keeps t t where
  workingDirectory := rfl
  entry _ _ h := h

theorem Keeps.directories (h : Keeps t t') : KeepsDirectories t t' where
  workingDirectory := h.workingDirectory
  directory p := h.entry p .directory

theorem Keeps.trans (h : Keeps t t') (h' : Keeps t' t'') : Keeps t t'' where
  workingDirectory := h'.workingDirectory.trans h.workingDirectory
  entry p e he := h'.entry p e (h.entry p e he)

theorem keeps_put_of_none (h : t.entry? q = none) : Keeps t (t.put q e) where
  workingDirectory := rfl
  entry := by
    intro p e' he'
    have hne : p ≠ q := by
      rintro rfl
      rw [h] at he'
      cases he'
    rw [entry?_put_of_ne hne, he']

/-- A file in a place that is not a directory costs no directory. -/
theorem keepsDirectories_put (h : t.entry? q ≠ some .directory) :
    KeepsDirectories t (t.put q e) where
  workingDirectory := rfl
  directory := by
    intro p hp
    have hne : p ≠ q := by
      rintro rfl
      exact h hp
    rw [entry?_put_of_ne hne, hp]

/-! ## Making directories -/

/-- One tree has all entries of the other, and otherwise only directories at places that the steps
lead through. -/
structure GrowsAlong (t t' : FileTree) (p : Path) (steps : List PathStep) : Prop where
  keeps : Keeps t t'
  added : ∀ q e, t'.entry? q = some e → t.entry? q = some e ∨
    e = .directory ∧ ∃ k ≤ steps.length, t'.walk p (steps.take k) = .ok q

namespace GrowsAlong

theorem refl (t : FileTree) (p : Path) (steps : List PathStep) : GrowsAlong t t p steps where
  keeps := .refl t
  added := fun _ _ h => .inl h

theorem cons (hdirectory : t.entry? p = some .directory) (hnext : step.next p = .ok r)
    (h : GrowsAlong t t' r rest) : GrowsAlong t t' p (step :: rest) where
  keeps := h.keeps
  added := by
    intro q e he
    rcases h.added q e he with hold | ⟨hnew, k, hk, hwalk⟩
    · exact .inl hold
    · refine .inr ⟨hnew, k + 1, by simpa using hk, ?_⟩
      exact walk_cons_eq_ok.2 ⟨h.keeps.entry p .directory hdirectory, r, hnext, hwalk⟩

/-- The directory just made is on the way itself. -/
theorem cons_made (hdirectory : t.entry? p = some .directory) (hnext : step.next p = .ok r)
    (hr : t.entry? r = none) (h : GrowsAlong (t.put r .directory) t' r rest) :
    GrowsAlong t t' p (step :: rest) where
  keeps := (keeps_put_of_none hr).trans h.keeps
  added := by
    have hkept : t'.entry? p = some .directory :=
      ((keeps_put_of_none hr).trans h.keeps).entry p .directory hdirectory
    intro q e he
    rcases h.added q e he with hput | ⟨hnew, k, hk, hwalk⟩
    · by_cases hq : q = r
      · have habove : ¬ r <:+ t.workingDirectory := not_suffix_of_entry?_ne (by simp [hr])
        rw [hq, entry?_put habove] at hput
        cases hput
        refine .inr ⟨rfl, 1, by simp, ?_⟩
        rw [hq]
        exact walk_cons_eq_ok.2 ⟨hkept, r, hnext, rfl⟩
      · rw [entry?_put_of_ne hq] at hput
        exact .inl hput
    · refine .inr ⟨hnew, k + 1, by simpa using hk, ?_⟩
      exact walk_cons_eq_ok.2 ⟨hkept, r, hnext, hwalk⟩

end GrowsAlong

theorem makeAlong_grows (refuse : Path → Option FileFault) (t : FileTree) (made : Bool) (p : Path)
    (steps : List PathStep) : GrowsAlong t (t.makeAlong refuse made p steps).1 p steps := by
  induction steps generalizing t made p with
  | nil =>
    unfold makeAlong
    split <;> exact .refl t p []
  | cons step rest ih =>
    unfold makeAlong
    cases henter : t.enter p with
    | error fault => exact .refl t p _
    | ok p' =>
      obtain ⟨hdirectory, rfl⟩ := enter_eq_ok.1 henter
      cases step with
      | here => exact (ih t made p).cons hdirectory rfl
      | up => exact (ih t made _).cons hdirectory rfl
      | into name =>
        simp only
        split
        · exact .refl t p _
        · next hlong =>
          have hnext : (PathStep.into name).next p = .ok (name :: p) := if_neg hlong
          split
          · exact (ih t made _).cons hdirectory hnext
          · next hnone =>
            split
            · exact .refl t p _
            · exact (ih _ true _).cons_made hdirectory hnext (by simpa using hnone)

/-! ## Temporary names -/

theorem length_le_longest {names : List String} (n : Nat) :
    n ≤ names.foldl (fun n name => max n name.length) n ∧
      ∀ name ∈ names, name.length ≤ names.foldl (fun n name => max n name.length) n := by
  induction names generalizing n with
  | nil => exact ⟨Nat.le_refl n, fun name hname => nomatch hname⟩
  | cons name names ih =>
    obtain ⟨hstart, hall⟩ := ih (max n name.length)
    rw [List.foldl_cons]
    refine ⟨by omega, fun name' hname' => ?_⟩
    rcases List.mem_cons.1 hname' with rfl | hname'
    · omega
    · exact hall name' hname'

theorem freshName_not_mem (t : FileTree) : t.freshName ∉ t.names := by
  intro hmem
  have hle := (length_le_longest 0).2 t.freshName hmem
  have hlength : t.freshName.length = t.names.foldl (fun n name => max n name.length) 0 + 1 := by
    rw [freshName, String.length_ofList, List.length_cons, List.length_replicate]
  omega

theorem not_suffix_freshName (t : FileTree) (p : Path) :
    ¬ t.freshName :: p <:+ t.workingDirectory := by
  intro hsuffix
  have hmem : t.freshName ∈ t.workingDirectory := hsuffix.subset List.mem_cons_self
  exact t.freshName_not_mem (List.mem_append_left _ hmem)

theorem ne_freshName (t : FileTree) (p : Path) {entry : Path × Entry} (h : entry ∈ t.entries) :
    entry.1 ≠ t.freshName :: p := by
  intro heq
  have hmem : t.freshName ∈ entry.1 := by
    rw [heq]
    exact List.mem_cons_self
  exact t.freshName_not_mem (List.mem_append_right _ (List.mem_flatMap.2 ⟨entry, h, hmem⟩))

/-- Nothing stands at the place of a temporary name. -/
theorem entry?_freshName (t : FileTree) (p : Path) : t.entry? (t.freshName :: p) = none := by
  unfold entry?
  rw [if_neg (by simpa using t.not_suffix_freshName p), List.lookup_eq_none_iff]
  intro entry hentry
  exact bne_iff_ne.2 (t.ne_freshName p hentry).symm

/-- Taking back the temporary file leaves the tree as it was. -/
theorem remove_put_freshName (t : FileTree) (p : Path) (e : Entry) :
    (t.put (t.freshName :: p) e).remove (t.freshName :: p) = t := by
  have hkept : t.entries.filter (·.1 != t.freshName :: p) = t.entries :=
    List.filter_eq_self.2 fun entry hentry => bne_iff_ne.2 (t.ne_freshName p hentry)
  unfold put remove
  rw [List.filter_cons_of_neg (by simp), hkept, hkept]

/-! ## Moving a file -/

structure NamesFile (path : String) : Prop where
  hasZero : PathText.hasZero path = false
  isTooLong : PathText.isTooLong path = false
  isEmpty : path.isEmpty = false
  endsInSlash : PathText.endsInSlash path = false

/-- A file that is moved stands at the place of the path, over a file or nothing. -/
theorem rename_eq_ok {source : Path} {target : String} (h : t.rename source target = .ok t') :
    NamesFile target ∧ ∃ q e, t.locate target = .ok q ∧ t.entry? q ≠ some .directory ∧
      t.entry? source = some e ∧ t' = (t.remove source).put q e := by
  simp only [rename, ite_error_eq_ok] at h
  obtain ⟨hzero, hlong, hempty, h⟩ := h
  obtain ⟨p, hp, h⟩ := bind_eq_ok.1 h
  obtain ⟨hfollow, hdirectory⟩ := followToDirectory_eq_ok.1 hp
  split at h
  · next name hlast =>
    simp only [ite_error_eq_ok] at h
    obtain ⟨hname, hslash, h⟩ := h
    have hnext : (PathStep.into name).next p = .ok (name :: p) := if_neg hname
    have hsteps : (PathText.steps target).dropLast ++ [.into name] = PathText.steps target :=
      List.dropLast_append_getLast? _ hlast
    have hplace : t.locate target = .ok (name :: p) := by
      rw [locate, ← hsteps, follow, walk_append]
      exact bind_eq_ok.2 ⟨p, hfollow, walk_cons_eq_ok.2 ⟨hdirectory, _, hnext, rfl⟩⟩
    refine ⟨⟨?_, ?_, ?_, ?_⟩, name :: p, ?_⟩
    · simpa using hzero
    · simpa using hlong
    · simpa using hempty
    · simpa using hslash
    · split at h
      · cases h
      · cases h
      · next e hsource hentry =>
        cases h
        exact ⟨e, hplace, hentry, hsource, rfl⟩
  · cases h

end FileTree
end NumberWords
