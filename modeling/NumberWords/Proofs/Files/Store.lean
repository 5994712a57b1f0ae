import NumberWords.Files.Store
import NumberWords.Language
import NumberWords.Proofs.Descriptor.RoundTrip
import NumberWords.Proofs.Files.Path
import NumberWords.Proofs.Files.Tree

/-!
Saving a descriptor is all or nothing.

The temporary file stands at a place of its own, so taking it back leaves the tree as it was and
moving it changes one entry (`replace_cases`).  A save that fails has at most made directories on
the way (`GrowsTo`), one that succeeds has its file besides (`Saved`), whatever is refused and
whenever (`save_all_or_nothing`).
-/

namespace NumberWords
namespace FileTree

open Fallible

variable {t t' : FileTree} {d : Descriptor} {path : String} {q : Path}

/-- The place of a directory that a written path goes through. -/
def OnTheWay (t : FileTree) (path : String) (p : Path) : Prop :=
  ∃ k < (PathText.steps path).length,
    t.follow (PathText.origin path) ((PathText.steps path).take k) = .ok p

theorem OnTheWay.mono (h : KeepsDirectories t t') (hway : t.OnTheWay path q) :
    t'.OnTheWay path q := by
  obtain ⟨k, hk, hfollow⟩ := hway
  exact ⟨k, hk, h.follow hfollow⟩

/-- Every entry of one tree is in the other, and nothing is new there but directories on the way of
a path. -/
structure GrowsTo (t t' : FileTree) (path : String) : Prop where
  keeps : Keeps t t'
  added : ∀ p e, t'.entry? p = some e →
    t.entry? p = some e ∨ e = .directory ∧ t'.OnTheWay path p

theorem GrowsTo.refl (t : FileTree) (path : String) : GrowsTo t t path where
  keeps := .refl t
  added := fun _ _ h => .inl h

/-- What grows along the parent of a path grows on the way of the path. -/
theorem GrowsAlong.growsTo (h : GrowsAlong t t' (t.start (PathText.origin (PathText.parent path)))
    (PathText.steps (PathText.parent path))) : GrowsTo t t' path where
  keeps := h.keeps
  added := by
    intro p e he
    rcases h.added p e he with hold | ⟨hnew, k, hk, hwalk⟩
    · exact .inl hold
    · rw [← h.keeps.directories.start] at hwalk
      rcases PathText.steps_parent path with ⟨rest, hrest, horigin, hsteps⟩ | ⟨horigin, hhere⟩
      · rw [horigin] at hwalk
        refine .inr ⟨hnew, k, ?_, ?_⟩
        · have hlength := List.length_pos_of_ne_nil hrest
          rw [hsteps, List.length_append]
          omega
        · rw [hsteps, List.take_append_of_le_length hk]
          exact hwalk
      · -- Only the working directory itself is on this way, and it is always there.
        have hp : p = t.workingDirectory := by
          rw [h.keeps.directories.start, horigin] at hwalk
          rw [hhere] at hk hwalk
          cases k with
          | zero => exact (Except.ok.inj hwalk).symm
          | succ k =>
            obtain ⟨-, r, hnext, hrest⟩ := walk_cons_eq_ok.1 hwalk
            rw [List.take_nil] at hrest
            cases hnext
            exact (Except.ok.inj hrest).symm
        rw [hp, hnew]
        exact .inl t.entry?_workingDirectory

theorem makeDirectories_grows (t : FileTree) (path : String) (refuse : Path → Option FileFault) :
    GrowsTo t (t.makeDirectories (PathText.parent path) refuse).1 path := by
  unfold makeDirectories
  split
  · exact .refl t path
  split
  · exact .refl t path
  · exact (makeAlong_grows refuse t false _ _).growsTo

/-! ## The temporary file -/

/-- The temporary file is taken back, or its content comes to the place of the path. -/
theorem replace_cases (t : FileTree) (refused : Refusals) (directory : Path) (content : ByteArray)
    (path : String) :
    (∃ fault, t.replace refused directory content path = (t, .error fault)) ∨
      NamesFile path ∧ ∃ q, t.entry? q ≠ some .directory ∧ t.locate path = .ok q ∧
        t.replace refused directory content path = (t.put q (.file content), .ok ()) := by
  have hnone := t.entry?_freshName directory
  have habove := t.not_suffix_freshName directory
  have hback := t.remove_put_freshName directory (.file content)
  unfold replace
  generalize t.freshName :: directory = temporary at *
  cases refused.temporary with
  | some fault => exact .inl ⟨fault, rfl⟩
  | none =>
    cases refused.content.or refused.move with
    | some fault => exact .inl ⟨fault, by simp only [hback]⟩
    | none =>
      simp only
      cases hrename : (t.put temporary (.file content)).rename temporary path with
      | error fault => exact .inl ⟨fault, by simp only [hback]⟩
      | ok t' =>
        obtain ⟨hnames, q, e, hplace, hq, he, rfl⟩ := rename_eq_ok hrename
        rw [entry?_put habove] at he
        cases he
        have hdirectories : KeepsDirectories (t.put temporary (.file content)) t := by
          refine ⟨rfl, fun p hp => ?_⟩
          have hne : p ≠ temporary := by
            rintro rfl
            rw [entry?_put habove] at hp
            cases hp
          rwa [entry?_put_of_ne hne] at hp
        refine .inr ⟨hnames, q, ?_, hdirectories.locate hplace, by rw [hback]⟩
        intro hdirectory
        exact hq ((keeps_put_of_none hnone).entry q .directory hdirectory)

/-! ## Saves -/

/-- The cases of a save: a descriptor that is not valid, a fault after some directories have been
made, and the file at its place. -/
theorem save_cases (t : FileTree) (d : Descriptor) (path : String) (refused : Refusals) :
    (∃ e, d.validate = .error e ∧ t.save d path refused = (t, .error e)) ∨
      d.validate = .ok () ∧ ∃ grown, GrowsTo t grown path ∧
        ((∃ fault, t.save d path refused = (grown, .error (.file fault))) ∨
          NamesFile path ∧ ∃ q, grown.entry? q ≠ some .directory ∧ grown.locate path = .ok q ∧
            t.save d path refused = (grown.put q (.file d.encode.toUTF8), .ok ())) := by
  unfold save
  cases hvalid : d.validate with
  | error e => exact .inl ⟨e, rfl, rfl⟩
  | ok u =>
    have hgrows := makeDirectories_grows t path refused.directory
    cases hmade : t.makeDirectories (PathText.parent path) refused.directory with
    | mk grown result =>
      rw [hmade] at hgrows
      refine .inr ⟨rfl, grown, hgrows, ?_⟩
      simp only [hmade]
      cases result with
      | error fault => exact .inl ⟨fault, rfl⟩
      | ok u =>
        simp only
        cases grown.followToDirectory (PathText.origin (PathText.parent path))
          (PathText.steps (PathText.parent path)) with
        | error fault => exact .inl ⟨fault, rfl⟩
        | ok directory =>
          rcases grown.replace_cases refused directory d.encode.toUTF8 path with
            ⟨fault, hreplace⟩ | ⟨hnames, q, hq, hplace, hreplace⟩
          · exact .inl ⟨fault, by simp only [hreplace]; rfl⟩
          · exact .inr ⟨hnames, q, hq, hplace, by simp only [hreplace]; rfl⟩

/-- A descriptor has come to the place of a path, over a file or nothing.  Everything else is as in
the tree before, but for new directories on the way. -/
structure Saved (t t' : FileTree) (d : Descriptor) (path : String) (q : Path) : Prop where
  workingDirectory : t'.workingDirectory = t.workingDirectory
  place : t'.locate path = .ok q
  content : t'.entry? q = some (.file d.encode.toUTF8)
  noDirectory : t.entry? q ≠ some .directory
  kept : ∀ p e, p ≠ q → t.entry? p = some e → t'.entry? p = some e
  added : ∀ p e, p ≠ q → t'.entry? p = some e →
    t.entry? p = some e ∨ e = .directory ∧ t'.OnTheWay path p

theorem GrowsTo.saved (h : GrowsTo t t' path) (hq : t'.entry? q ≠ some .directory)
    (hplace : t'.locate path = .ok q) (d : Descriptor) :
    Saved t (t'.put q (.file d.encode.toUTF8)) d path q where
  workingDirectory := h.keeps.workingDirectory
  place := (keepsDirectories_put hq).follow hplace
  content := entry?_put (not_suffix_of_entry?_ne hq)
  noDirectory := fun hdirectory => hq (h.keeps.entry q .directory hdirectory)
  kept := by
    intro p e hp he
    rw [entry?_put_of_ne hp]
    exact h.keeps.entry p e he
  added := by
    intro p e hp he
    rw [entry?_put_of_ne hp] at he
    rcases h.added p e he with hold | ⟨hnew, hway⟩
    · exact .inl hold
    · exact .inr ⟨hnew, hway.mono (keepsDirectories_put hq)⟩

theorem ofBytes_encode (hvalid : d.validate = .ok ()) :
    Descriptor.ofBytes d.encode.toUTF8 = .ok d := by
  have htext : String.fromUTF8? d.encode.toUTF8 = some d.encode := by
    unfold String.fromUTF8?
    rw [String.toUTF8_eq_toByteArray, dif_pos d.encode.isValidUTF8]
    rfl
  rw [Descriptor.ofBytes, htext]
  exact Descriptor.load_encode hvalid

theorem Saved.read (h : Saved t t' d path q) (hnames : NamesFile path) :
    t'.read path = .ok d.encode.toUTF8 := by
  unfold FileTree.read
  simp only [hnames.hasZero, hnames.isTooLong, hnames.isEmpty, hnames.endsInSlash,
    Bool.false_eq_true, if_false]
  refine bind_eq_ok.2 ⟨q, h.place, bind_eq_ok.2 ⟨q, rfl, ?_⟩⟩
  rw [h.content]

theorem Saved.load (h : Saved t t' d path q) (hnames : NamesFile path)
    (hvalid : d.validate = .ok ()) : t'.load path = .ok d := by
  unfold FileTree.load
  rw [h.read hnames]
  exact bind_eq_ok.2 ⟨d.encode.toUTF8, rfl, ofBytes_encode hvalid⟩

/-- Where the path leads somewhere, no directory is missing on its way. -/
theorem GrowsTo.entry?_eq {grown : FileTree} (h : GrowsTo t grown path)
    (hplace : t.locate path = .ok q) (p : Path) : grown.entry? p = t.entry? p := by
  cases hp : t.entry? p with
  | some e => exact h.keeps.entry p e hp
  | none =>
    cases hgrown : grown.entry? p with
    | none => rfl
    | some e =>
      rcases h.added p e hgrown with hold | ⟨-, k, hk, hway⟩
      · rw [hp] at hold
        cases hold
      · obtain ⟨r, htake, hdirectory⟩ := exists_walk_take hplace hk
        rw [h.keeps.directories.follow htake] at hway
        cases hway
        rw [hp] at hdirectory
        cases hdirectory

/-- Saving again changes nothing, whether it is refused or not. -/
theorem Saved.again (h : Saved t t' d path q) (refused : Refusals) (p : Path) :
    entry? (t'.save d path refused).1 p = t'.entry? p := by
  rcases t'.save_cases d path refused with ⟨e, -, hsave⟩ |
    ⟨-, grown, hgrows, ⟨fault, hsave⟩ | ⟨-, q', hq', hplace, hsave⟩⟩
  · rw [hsave]
  · rw [hsave]
    exact hgrows.entry?_eq h.place p
  · rw [hgrows.keeps.directories.locate h.place] at hplace
    cases hplace
    rw [hsave]
    by_cases hp : p = q
    · rw [hp, h.content]
      exact entry?_put (not_suffix_of_entry?_ne hq')
    · exact (entry?_put_of_ne hp).trans (hgrows.entry?_eq h.place p)

/-- Saving is all or nothing, whatever is refused.  A descriptor that is not valid leaves the tree
alone; a save that fails later leaves at most new directories on the way; and after a save that
succeeds the descriptor is loaded from the path, nothing else has changed, and saving again changes
nothing. -/
theorem save_all_or_nothing (t : FileTree) (d : Descriptor) (path : String) (refused : Refusals) :
    (∀ e, d.validate = .error e → t.save d path refused = (t, .error e)) ∧
      (∀ t' e, t.save d path refused = (t', .error e) → GrowsTo t t' path) ∧
      ∀ t', t.save d path refused = (t', .ok ()) →
        t'.load path = .ok d ∧ (∃ q, Saved t t' d path q) ∧
          ∀ refused' p, entry? (t'.save d path refused').1 p = t'.entry? p := by
  refine ⟨fun e he => ?_, fun t' e h => ?_, fun t' h => ?_⟩
  · unfold save
    rw [he]
  · rcases t.save_cases d path refused with ⟨e', -, hsave⟩ |
      ⟨-, grown, hgrows, ⟨fault, hsave⟩ | ⟨-, q, -, -, hsave⟩⟩
    · rw [hsave] at h
      cases h
      exact .refl t path
    · rw [hsave] at h
      cases h
      exact hgrows
    · rw [hsave] at h
      cases h
  · rcases t.save_cases d path refused with ⟨e', -, hsave⟩ |
      ⟨hvalid, grown, hgrows, ⟨fault, hsave⟩ | ⟨hnames, q, hq, hplace, hsave⟩⟩
    · rw [hsave] at h
      cases h
    · rw [hsave] at h
      cases h
    · rw [hsave] at h
      cases h
      have hsaved := hgrows.saved hq hplace d
      exact ⟨hsaved.load hnames hvalid, ⟨q, hsaved⟩, hsaved.again⟩

/-- A built-in descriptor saved in two directories that are missing, by a path from the root and by
one from the working directory that goes above it. -/
theorem save_in_missing_directories :
    ∃ t', empty.save Language.spanish.descriptor "/a/b/es.json" = (t', .ok ()) ∧
      t'.entries.map (·.1) = [["es.json", "b", "a"], ["b", "a"], ["a"]] ∧
      t'.locate "../../a/b/es.json" = t'.locate "/a/b/es.json" ∧
      t'.load "/a/b/es.json" = .ok Language.spanish.descriptor ∧
    ∃ t'', t'.save Language.russian.descriptor "../work/a/b/../ru.json" = (t'', .ok ()) ∧
      t''.entries.map (·.1) = [["ru.json", "a", "work"], ["b", "a", "work"], ["a", "work"],
        ["es.json", "b", "a"], ["b", "a"], ["a"]] ∧
      t''.load "../work/a/b/../ru.json" = .ok Language.russian.descriptor := by
  have hspanish : Language.spanish.descriptor.validate = .ok () := by decide
  have hrussian : Language.russian.descriptor.validate = .ok () := by decide
  have hsave : ∃ t', empty.save Language.spanish.descriptor "/a/b/es.json" = (t', .ok ()) ∧
      t'.entries.map (·.1) = [["es.json", "b", "a"], ["b", "a"], ["a"]] ∧
      t'.locate "../../a/b/es.json" = t'.locate "/a/b/es.json" ∧
      ∃ t'', t'.save Language.russian.descriptor "../work/a/b/../ru.json" = (t'', .ok ()) ∧
        t''.entries.map (·.1) = [["ru.json", "a", "work"], ["b", "a", "work"], ["a", "work"],
          ["es.json", "b", "a"], ["b", "a"], ["a"]] := by
    unfold save
    rw [hspanish, hrussian]
    exact ⟨_, rfl, rfl, rfl, _, rfl, rfl⟩
  obtain ⟨t', hsave, hentries, hlocate, t'', hsave', hentries'⟩ := hsave
  have hload := ((save_all_or_nothing _ _ _ _).2.2 t' hsave).1
  have hload' := ((save_all_or_nothing _ _ _ _).2.2 t'' hsave').1
  exact ⟨t', hsave, hentries, hlocate, hload, t'', hsave', hentries', hload'⟩

end FileTree
end NumberWords
