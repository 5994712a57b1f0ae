import NumberWords.Files.Path

/-!
Written paths and the paths of their parents.

The parent starts where the path does, its steps are first steps of the path, and at least one more
follows (`steps_parent`); where the path has no step to leave out, or the working directory is left,
the parent is written as the working directory.
-/

namespace NumberWords
namespace PathText

theorem not_mem_of_mem_splitOn {c : Char} {cs piece : List Char} (h : piece ∈ cs.splitOn c) :
    c ∉ piece := by
  induction cs generalizing piece with
  | nil =>
    rw [List.splitOn_nil, List.mem_singleton] at h
    rw [h]
    exact List.not_mem_nil
  | cons d cs ih =>
    rw [List.splitOn_cons_eq_if_modifyHead] at h
    by_cases hd : d = c
    · rw [if_pos (beq_iff_eq.2 hd)] at h
      rcases List.mem_cons.1 h with rfl | h
      · exact List.not_mem_nil
      · exact ih h
    · rw [if_neg (by simpa using hd)] at h
      cases hpieces : cs.splitOn c with
      | nil => exact absurd hpieces (List.splitOn_ne_nil c cs)
      | cons first rest =>
        rw [hpieces, List.modifyHead_cons] at h
        rcases List.mem_cons.1 h with rfl | h
        · have hfirst : c ∉ first := ih (hpieces ▸ List.mem_cons_self)
          exact fun hc => (List.mem_cons.1 hc).elim (fun heq => hd heq.symm) hfirst
        · exact ih (hpieces ▸ List.mem_cons_of_mem first h)

theorem not_mem_of_mem_pieces {path piece : String} (h : piece ∈ pieces path) :
    '/' ∉ piece.toList := by
  obtain ⟨cs, hcs, rfl⟩ := List.mem_map.1 h
  rw [String.toList_ofList]
  exact not_mem_of_mem_splitOn hcs

theorem intercalate_pieces (path : String) : "/".intercalate (pieces path) = path := by
  apply String.toList_injective
  rw [String.toList_intercalate, pieces, List.map_map]
  have hpieces : (path.toList.splitOn '/').map (String.toList ∘ String.ofList)
      = path.toList.splitOn '/' :=
    List.map_id'' (fun _ => String.toList_ofList) _
  rw [hpieces]
  exact List.intercalate_splitOn '/'

theorem pieces_intercalate {ps : List String} (hne : ps ≠ []) (h : ∀ p ∈ ps, '/' ∉ p.toList) :
    pieces ("/".intercalate ps) = ps := by
  have hsplit : (['/'].intercalate (ps.map String.toList)).splitOn '/' = ps.map String.toList := by
    apply List.splitOn_intercalate
    · intro l hl
      obtain ⟨p, hp, rfl⟩ := List.mem_map.1 hl
      exact h p hp
    · simpa using hne
  rw [pieces, String.toList_intercalate]
  show List.map _ ((['/'].intercalate (ps.map String.toList)).splitOn '/') = ps
  rw [hsplit, List.map_map]
  exact List.map_id'' (fun _ => String.ofList_toList) _

theorem dropIdle_suffix (ps : List String) : dropIdle ps <:+ ps := by
  induction ps with
  | nil => exact List.suffix_rfl
  | cons p ps ih =>
    rw [dropIdle]
    split
    · exact ih.trans (List.suffix_cons p ps)
    · exact List.suffix_rfl

/-- What is left begins with a piece that leads somewhere. -/
theorem ne_empty_of_dropIdle {ps rest : List String} {p : String} (h : dropIdle ps = p :: rest) :
    p ≠ "" := by
  induction ps with
  | nil => cases h
  | cons p' ps ih =>
    rw [dropIdle] at h
    split at h
    · exact ih h
    · next hidle =>
      cases h
      rintro rfl
      exact hidle rfl

theorem stepsOf_append (ps qs : List String) : stepsOf (ps ++ qs) = stepsOf ps ++ stepsOf qs := by
  rw [stepsOf, List.filter_append, List.map_append]
  rfl

theorem stepsOf_ne_nil {ps : List String} {p : String} (hp : p ∈ ps) (hne : p ≠ "") :
    stepsOf ps ≠ [] := by
  intro hnil
  rw [stepsOf, List.map_eq_nil_iff, List.filter_eq_nil_iff] at hnil
  exact hnil p hp (bne_iff_ne.2 hne)

/-- The first pieces of a path, if there is a name among them, are a path that starts where the whole
does and has its first steps. -/
theorem first_pieces {path p : String} {ps qs : List String} (h : pieces path = ps ++ qs)
    (hp : p ∈ ps) (hne : p ≠ "") (hqs : qs ≠ []) :
    origin ("/".intercalate ps) = origin path ∧
      steps path = steps ("/".intercalate ps) ++ stepsOf qs := by
  have hps : ps ≠ [] := List.ne_nil_of_mem hp
  have hpieces : pieces ("/".intercalate ps) = ps := by
    apply pieces_intercalate hps
    intro p hp
    have hpath : p ∈ pieces path := h ▸ List.mem_append_left qs hp
    exact not_mem_of_mem_pieces hpath
  refine ⟨?_, by rw [steps, steps, h, hpieces, stepsOf_append]⟩
  have hchars : ("/".intercalate ps).toList ≠ [] := by
    intro hnil
    have hempty : "/".intercalate ps = "" := String.toList_eq_nil_iff.1 hnil
    rw [hempty] at hpieces
    rw [← hpieces] at hp
    exact hne (List.mem_singleton.1 hp)
  obtain ⟨c, cs, hcons⟩ := List.exists_cons_of_ne_nil hchars
  rw [← intercalate_pieces path, h, origin, origin, String.intercalate_append_of_ne_nil hps hqs,
    String.toList_append, String.toList_append, hcons]
  rfl

theorem start_of_dot : origin "." = .workingDirectory ∧ steps "." = [.here] := by decide

theorem start_of_slash : origin "/" = .root ∧ steps "/" = [] := by decide

/-- The parent starts where the path does and has its first steps but not all, or is written as the
working directory. -/
theorem steps_parent (path : String) :
    (∃ rest, rest ≠ [] ∧ origin (parent path) = origin path ∧
        steps path = steps (parent path) ++ rest) ∨
      origin (parent path) = .workingDirectory ∧ steps (parent path) = [.here] := by
  rw [parent]
  cases hlast : dropIdle (pieces path).reverse with
  | nil => exact .inr start_of_dot
  | cons last lower =>
    have hlastne : last ≠ "" := ne_empty_of_dropIdle hlast
    obtain ⟨idle, hidle⟩ := dropIdle_suffix (pieces path).reverse
    have hpieces : pieces path = lower.reverse ++ last :: idle.reverse := by
      rw [← List.reverse_reverse (pieces path), ← hidle, hlast]
      simp
    cases habove : dropIdle lower with
    | nil =>
      by_cases horigin : origin path = .root
      · obtain ⟨horigin', hsteps⟩ := start_of_slash
        have hne : steps path ≠ [] := stepsOf_ne_nil (by simp [hpieces]) hlastne
        simp only [habove, if_pos horigin, horigin', hsteps]
        exact .inl ⟨steps path, hne, horigin.symm, rfl⟩
      · simp only [habove, if_neg horigin]
        exact .inr start_of_dot
    | cons top above =>
      obtain ⟨idle', hidle'⟩ := dropIdle_suffix lower
      have hfront : pieces path
          = (top :: above).reverse ++ (idle'.reverse ++ last :: idle.reverse) := by
        rw [hpieces, ← hidle', habove]
        simp
      obtain ⟨horigin, hsteps⟩ :=
        first_pieces hfront (by simp) (ne_empty_of_dropIdle habove) (by simp)
      have hrest : stepsOf (idle'.reverse ++ last :: idle.reverse) ≠ [] :=
        stepsOf_ne_nil (by simp) hlastne
      simp only [habove]
      exact .inl ⟨_, hrest, horigin, hsteps⟩

end PathText
end NumberWords
