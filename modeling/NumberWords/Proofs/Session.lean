import Mathlib.Algebra.Ring.Parity
import Mathlib.Data.List.Induction
import Mathlib.Data.List.TakeWhile
import NumberWords.Session

/-!
The state of a session.

A line is obeyed by what it says between its blanks.  One line changes the options in one of three
ways or not at all (`afterLine_noAnd`, `afterLine_of_setsLanguage`, `afterLine_of_setsAlternative`,
`afterLine_of_isIdle`), so after a run the conjunction is settled by how often it was switched, and
the language and the alternative base by the last lines that set them (`session_state`).
-/

namespace NumberWords
namespace Session

/-- A line says a command with an argument.  Blanks around either do not count. -/
def Says (command line argument : String) : Prop :=
  ∃ rest, Text.trim line = command ++ rest ∧ argument = Text.trim rest

/-- A line sets the language: it names a built-in one, or a file with a descriptor. -/
inductive SetsLanguage (load : String → Except Error Descriptor) (line : String) :
    Selection → Prop where
  | language {code : String} {l : Language} :
      Says ":lang " line code → Language.ofCode? code = some l → SetsLanguage load line (.builtIn l)
  | load {path : String} {d : Descriptor} :
      Says ":load " line path → load path = .ok d → SetsLanguage load line (.custom d)

/-- A line sets the alternative base: it names one, or clears it, or sets the language. -/
inductive SetsAlternative (load : String → Except Error Descriptor) (line : String) :
    Option String → Prop where
  | named {name : String} : Says ":alt " line name → name ≠ "-" →
      SetsAlternative load line (some name)
  | cleared : Says ":alt " line "-" → SetsAlternative load line none
  | language {selection : Selection} : SetsLanguage load line selection →
      SetsAlternative load line none

structure IsIdle (load : String → Except Error Descriptor) (line : String) : Prop where
  stays : Text.trim line ≠ "exit"
  keepsAnd : Text.trim line ≠ ":noand"
  keepsLanguage : ∀ selection, ¬ SetsLanguage load line selection
  keepsAlternative : ∀ alternative, ¬ SetsAlternative load line alternative

def processed (lines : List String) : List String :=
  lines.takeWhile fun line => Text.trim line != "exit"

/-- The value that the last line to set one has set, or the first value where no line sets any. -/
def IsLastSet {α : Type} (sets : String → α → Prop) (lines : List String) (first last : α) : Prop :=
  (last = first ∧ ∀ line ∈ lines, ∀ a, ¬ sets line a) ∨
    ∃ before line after, lines = before ++ line :: after ∧ sets line last ∧
      ∀ line ∈ after, ∀ a, ¬ sets line a

variable {line : String}

/-- Of two commands that a line says, one begins with the other. -/
theorem Says.isPrefix {command command' argument argument' : String}
    (h : Says command line argument) (h' : Says command' line argument') :
    command.toList <+: command'.toList ∨ command'.toList <+: command.toList := by
  obtain ⟨rest, hline, -⟩ := h
  obtain ⟨rest', hline', -⟩ := h'
  have hprefix : command.toList <+: (Text.trim line).toList := by
    rw [hline, String.toList_append]
    exact List.prefix_append _ _
  have hprefix' : command'.toList <+: (Text.trim line).toList := by
    rw [hline', String.toList_append]
    exact List.prefix_append _ _
  exact List.prefix_or_prefix_of_prefix hprefix hprefix'

theorem Says.trim_ne {command argument : String} (h : Says command line argument) {word : String}
    (hword : ¬ command.toList <+: word.toList) : Text.trim line ≠ word := by
  rintro rfl
  obtain ⟨rest, hline, -⟩ := h
  apply hword
  rw [hline, String.toList_append]
  exact List.prefix_append _ _

end Session

namespace Command

open Session

variable {line : String}

/-! ## What a line says -/

theorem argument?_eq_some_iff {command argument : String} :
    argument? command (Text.trimChars line.toList) = some argument ↔
      Says command line argument := by
  unfold argument? Says
  constructor
  · intro h
    by_cases hprefix : command.toList.isPrefixOf (Text.trimChars line.toList) = true
    · rw [if_pos hprefix] at h
      obtain ⟨rest, hrest⟩ := List.isPrefixOf_iff_prefix.1 hprefix
      refine ⟨String.ofList rest, ?_, ?_⟩
      · rw [Text.trim, ← hrest, String.ofList_append, String.ofList_toList]
      · have hdrop : (Text.trimChars line.toList).drop command.length = rest := by
          rw [← hrest, ← String.length_toList]
          exact List.drop_left
        rw [hdrop] at h
        rw [Text.trim, String.toList_ofList]
        exact (Option.some.inj h).symm
    · rw [if_neg hprefix] at h
      cases h
  · rintro ⟨rest, hline, rfl⟩
    have hchars : Text.trimChars line.toList = command.toList ++ rest.toList := by
      rw [← String.toList_append, ← hline, Text.trim, String.toList_ofList]
    rw [hchars, if_pos (List.isPrefixOf_iff_prefix.2 (List.prefix_append _ _)),
      ← String.length_toList, List.drop_left]
    rfl

theorem argument?_eq_none {command command' argument : String} (h : Says command line argument)
    (hne : ¬ command.toList <+: command'.toList) (hne' : ¬ command'.toList <+: command.toList) :
    argument? command' (Text.trimChars line.toList) = none := by
  rw [Option.eq_none_iff_forall_ne_some]
  intro argument' harg
  rcases h.isPrefix (argument?_eq_some_iff.1 harg) with hprefix | hprefix
  · exact hne hprefix
  · exact hne' hprefix

theorem ofLine_eq (line : String) : ofLine line =
    if Text.trim line = "exit" then .leave
    else if Text.trim line = "" then .blank
    else match argument? ":lang " (Text.trimChars line.toList),
        argument? ":alt " (Text.trimChars line.toList),
        argument? ":load " (Text.trimChars line.toList) with
      | some code, _, _ => .language code
      | none, some name, _ => .alternative (if name = "-" then none else some name)
      | none, none, some path => .load path
      | none, none, none =>
        if Text.trim line = ":noand" then .toggleAnd
        else if Text.trim line = ":langs" then .listLanguages
        else if Text.trim line = ":help" then .help
        else .write (Text.trim line) := rfl

theorem ofLine_of_language {code : String} (h : Says ":lang " line code) :
    ofLine line = .language code := by
  rw [ofLine_eq, if_neg (h.trim_ne (by decide)), if_neg (h.trim_ne (by decide)),
    argument?_eq_some_iff.2 h]

theorem ofLine_of_alternative {name : String} (h : Says ":alt " line name) :
    ofLine line = .alternative (if name = "-" then none else some name) := by
  rw [ofLine_eq, if_neg (h.trim_ne (by decide)), if_neg (h.trim_ne (by decide)),
    argument?_eq_none h (by decide) (by decide), argument?_eq_some_iff.2 h]

theorem ofLine_of_load {path : String} (h : Says ":load " line path) :
    ofLine line = .load path := by
  rw [ofLine_eq, if_neg (h.trim_ne (by decide)), if_neg (h.trim_ne (by decide)),
    argument?_eq_none h (by decide) (by decide), argument?_eq_none h (by decide) (by decide),
    argument?_eq_some_iff.2 h]

theorem ofLine_of_exit (h : Text.trim line = "exit") : ofLine line = .leave := by
  rw [ofLine_eq, if_pos h]

/-- What a command tells of the line it was read from. -/
theorem of_ofLine (line : String) :
    match ofLine line with
    | .leave => Text.trim line = "exit"
    | .language code => Says ":lang " line code
    | .alternative none => Says ":alt " line "-"
    | .alternative (some name) => Says ":alt " line name ∧ name ≠ "-"
    | .load path => Says ":load " line path
    | .toggleAnd => Text.trim line = ":noand"
    | _ => True := by
  rw [ofLine_eq]
  by_cases hexit : Text.trim line = "exit"
  · simp [hexit]
  rw [if_neg hexit]
  by_cases hblank : Text.trim line = ""
  · simp [hblank]
  rw [if_neg hblank]
  cases hlang : argument? ":lang " (Text.trimChars line.toList) with
  | some code => exact argument?_eq_some_iff.1 hlang
  | none =>
    cases halt : argument? ":alt " (Text.trimChars line.toList) with
    | some name =>
      have hline := argument?_eq_some_iff.1 halt
      by_cases hname : name = "-"
      · subst hname
        exact hline
      · simp only [if_neg hname]
        exact ⟨hline, hname⟩
    | none =>
      cases hload : argument? ":load " (Text.trimChars line.toList) with
      | some path => exact argument?_eq_some_iff.1 hload
      | none =>
        by_cases hand : Text.trim line = ":noand"
        · simp [hand]
        by_cases hlangs : Text.trim line = ":langs"
        · simp [hlangs]
        by_cases hhelp : Text.trim line = ":help"
        · simp [hhelp]
        simp [hand, hlangs, hhelp]

theorem ofLine_ne_leave (h : Text.trim line ≠ "exit") : ofLine line ≠ .leave := by
  intro hleave
  have hline := of_ofLine line
  rw [hleave] at hline
  exact h hline

theorem ofLine_of_noAnd (h : Text.trim line = ":noand") : ofLine line = .toggleAnd := by
  have hnot : ∀ {command : String}, ¬ command.toList <+: ":noand".toList →
      argument? command (Text.trimChars line.toList) = none := by
    intro command hcommand
    rw [Option.eq_none_iff_forall_ne_some]
    intro argument harg
    exact (argument?_eq_some_iff.1 harg).trim_ne hcommand h
  rw [ofLine_eq, if_neg (by rw [h]; decide), if_neg (by rw [h]; decide), hnot (by decide),
    hnot (by decide), hnot (by decide), if_pos h]

end Command

namespace Options

open Session Command

variable {load : String → Except Error Descriptor} {o : Options} {line : String}
variable {lines before after : List String}

/-! ## One line -/

def afterLine (load : String → Except Error Descriptor) (o : Options) (line : String) : Options :=
  (o.obey load (ofLine line)).1

theorem afterLine_noAnd :
    (o.afterLine load line).noAnd = if Text.trim line = ":noand" then !o.noAnd else o.noAnd := by
  by_cases hand : Text.trim line = ":noand"
  · rw [afterLine, ofLine_of_noAnd hand, if_pos hand]
    rfl
  rw [if_neg hand, afterLine]
  have hline := of_ofLine line
  cases hcommand : ofLine line with
  | toggleAnd =>
    rw [hcommand] at hline
    exact absurd hline hand
  | language code =>
    simp only [obey]
    cases Language.ofCode? code <;> rfl
  | load path =>
    simp only [obey]
    cases load path <;> rfl
  | _ => rfl

theorem afterLine_of_setsLanguage {selection : Selection} (h : SetsLanguage load line selection) :
    o.afterLine load line = { o with selection, alternative := none } := by
  cases h with
  | language hline hcode =>
    rw [afterLine, ofLine_of_language hline, obey, hcode]
  | load hline hload =>
    rw [afterLine, ofLine_of_load hline, obey, hload]

theorem afterLine_selection (h : ∀ selection, ¬ SetsLanguage load line selection) :
    (o.afterLine load line).selection = o.selection := by
  have hline := of_ofLine line
  rw [afterLine]
  cases hcommand : ofLine line with
  | language code =>
    rw [hcommand] at hline
    cases hcode : Language.ofCode? code with
    | some l => exact absurd (.language hline hcode) (h _)
    | none => simp only [obey, hcode]
  | load path =>
    rw [hcommand] at hline
    cases hload : load path with
    | ok d => exact absurd (.load hline hload) (h _)
    | error e => simp only [obey, hload]
  | _ => rfl

theorem afterLine_of_setsAlternative {alternative : Option String}
    (h : SetsAlternative load line alternative) :
    (o.afterLine load line).alternative = alternative := by
  cases h with
  | named hline hname => rw [afterLine, ofLine_of_alternative hline, if_neg hname, obey]
  | cleared hline => rw [afterLine, ofLine_of_alternative hline, if_pos rfl, obey]
  | language hset => rw [afterLine_of_setsLanguage hset]

theorem afterLine_alternative (h : ∀ alternative, ¬ SetsAlternative load line alternative) :
    (o.afterLine load line).alternative = o.alternative := by
  have hline := of_ofLine line
  rw [afterLine]
  cases hcommand : ofLine line with
  | language code =>
    rw [hcommand] at hline
    cases hcode : Language.ofCode? code with
    | some l => exact absurd (.language (.language hline hcode)) (h _)
    | none => simp only [obey, hcode]
  | load path =>
    rw [hcommand] at hline
    cases hload : load path with
    | ok d => exact absurd (.language (.load hline hload)) (h _)
    | error e => simp only [obey, hload]
  | alternative name =>
    rw [hcommand] at hline
    cases name with
    | none => exact absurd (.cleared hline) (h _)
    | some name => exact absurd (.named hline.1 hline.2) (h _)
  | _ => rfl

/-- An idle line leaves every option as it is. -/
theorem afterLine_of_isIdle (h : IsIdle load line) : o.afterLine load line = o := by
  have hand : (o.afterLine load line).noAnd = o.noAnd := by rw [afterLine_noAnd, if_neg h.keepsAnd]
  have hselection := afterLine_selection (o := o) h.keepsLanguage
  have halternative := afterLine_alternative (o := o) h.keepsAlternative
  generalize o.afterLine load line = o' at hand hselection halternative
  obtain ⟨⟨alternative, noAnd⟩, selection⟩ := o
  obtain ⟨⟨alternative', noAnd'⟩, selection'⟩ := o'
  cases hand
  cases hselection
  cases halternative
  rfl

/-! ## Many lines -/

theorem converse_cons (h : Text.trim line ≠ "exit") :
    o.converse load (line :: lines) =
      (((o.afterLine load line).converse load lines).1,
        (o.obey load (ofLine line)).2 ++ (o.afterLine load line).prompt ::
          ((o.afterLine load line).converse load lines).2) := by
  have hleave := ofLine_ne_leave h
  rw [converse, afterLine]
  cases hcommand : ofLine line with
  | leave => exact absurd hcommand hleave
  | _ => rfl

theorem converse_exit (h : Text.trim line = "exit") :
    o.converse load (line :: lines) = (o, []) := by
  rw [converse, ofLine_of_exit h]

/-- Nothing after the line that ends the session is obeyed. -/
theorem converse_processed (o : Options) (lines : List String) :
    o.converse load lines = o.converse load (processed lines) := by
  induction lines generalizing o with
  | nil => rfl
  | cons line lines ih =>
    by_cases hexit : Text.trim line = "exit"
    · rw [converse_exit hexit, processed, List.takeWhile_cons_of_neg (by simp [hexit])]
      rfl
    · rw [processed, List.takeWhile_cons_of_pos (by simpa using hexit), converse_cons hexit,
        converse_cons hexit, ih, processed]

/-- A run goes on from the options that it has come to. -/
theorem converse_append (h : ∀ line ∈ before, Text.trim line ≠ "exit") (o : Options)
    (after : List String) :
    o.converse load (before ++ after) =
      (((o.converse load before).1.converse load after).1,
        (o.converse load before).2 ++ ((o.converse load before).1.converse load after).2) := by
  induction before generalizing o with
  | nil => rfl
  | cons line before ih =>
    obtain ⟨hline, hbefore⟩ := List.forall_mem_cons.1 h
    rw [List.cons_append, converse_cons hline, converse_cons hline, ih hbefore]
    simp only [List.append_assoc, List.cons_append]

theorem converse_concat (h : ∀ line ∈ before, Text.trim line ≠ "exit")
    (hline : Text.trim line ≠ "exit") (o : Options) :
    (o.converse load (before ++ [line])).1 = (o.converse load before).1.afterLine load line := by
  rw [converse_append h, converse_cons hline]
  rfl

/-- The conjunction is where it was after an even number of switches. -/
theorem converse_noAnd (h : ∀ line ∈ lines, Text.trim line ≠ "exit") (o : Options) :
    (o.converse load lines).1.noAnd = o.noAnd ↔
      Even (lines.countP fun line => Text.trim line == ":noand") := by
  induction lines using List.reverseRecOn with
  | nil => simp [converse]
  | append_singleton lines line ih =>
    have hlines := fun l hl => h l (List.mem_append_left _ hl)
    have hline := h line (List.mem_append_right _ List.mem_cons_self)
    have ih := ih hlines
    rw [converse_concat hlines hline, afterLine_noAnd, List.countP_append, List.countP_singleton]
    by_cases hand : Text.trim line = ":noand"
    · rw [if_pos hand, if_pos (by simpa using hand), Nat.even_add_one, ← ih]
      cases (o.converse load lines).1.noAnd <;> cases o.noAnd <;> decide
    · rw [if_neg hand, if_neg (by simpa using hand)]
      exact ih

/-- What one line sets and other lines leave alone is set by the last line that sets it. -/
theorem isLastSet_converse {α : Type} (get : Options → α) {sets : String → α → Prop}
    (hset : ∀ o line a, sets line a → get (afterLine load o line) = a)
    (hkeep : ∀ o line, (∀ a, ¬ sets line a) → get (afterLine load o line) = get o)
    (h : ∀ line ∈ lines, Text.trim line ≠ "exit") (o : Options) :
    IsLastSet sets lines (get o) (get (o.converse load lines).1) := by
  induction lines using List.reverseRecOn with
  | nil => exact .inl ⟨rfl, fun line hline => (nomatch hline)⟩
  | append_singleton lines line ih =>
    have hlines := fun l hl => h l (List.mem_append_left _ hl)
    have hline := h line (List.mem_append_right _ List.mem_cons_self)
    rw [converse_concat hlines hline]
    by_cases hsome : ∃ a, sets line a
    · obtain ⟨a, ha⟩ := hsome
      rw [hset _ line a ha]
      exact .inr ⟨lines, line, [], rfl, ha, fun l hl => (nomatch hl)⟩
    · have hnone : ∀ a, ¬ sets line a := fun a ha => hsome ⟨a, ha⟩
      rw [hkeep _ line hnone]
      rcases ih hlines with ⟨heq, hall⟩ | ⟨before, setter, after, rfl, hsetter, hafter⟩
      · refine .inl ⟨heq, fun l hl => ?_⟩
        rcases List.mem_append.1 hl with hl | hl
        · exact hall l hl
        · rw [List.mem_singleton.1 hl]
          exact hnone
      · refine .inr ⟨before, setter, after ++ [line], by simp, hsetter, fun l hl => ?_⟩
        rcases List.mem_append.1 hl with hl | hl
        · exact hafter l hl
        · rw [List.mem_singleton.1 hl]
          exact hnone

/-- An idle line in a run adds what is said to it and a prompt, and nothing else changes. -/
theorem converse_of_isIdle (hbefore : ∀ line ∈ before, Text.trim line ≠ "exit")
    (h : IsIdle load line) (o : Options) (after : List String) :
    let o' := (o.converse load before).1
    o.converse load (before ++ line :: after) =
      ((o.converse load (before ++ after)).1,
        (o.converse load before).2 ++ ((o'.obey load (ofLine line)).2 ++ [o'.prompt]) ++
          (o'.converse load after).2) := by
  intro o'
  rw [converse_append hbefore, converse_append hbefore, converse_cons h.stays,
    afterLine_of_isIdle h]
  simp only [List.append_assoc, List.cons_append, List.nil_append, o']

end Options

namespace Session

theorem run_without_arguments (load : String → Except Error Descriptor) (code : Option String)
    (lines : List String) :
    run load code [] lines = .greeting :: (Options.initial code).prompt ::
      ((Options.initial code).converse load lines).2 := rfl

/-- The state of a session and what each line adds to its output.  Only the lines before the end
count; the conjunction is off after an odd number of switches, and the language and the alternative
base are those set last.  Any other line keeps the options: without it the session says the same
but for the answer to the line and one prompt. -/
theorem session_state (load : String → Except Error Descriptor) (code : Option String)
    (lines : List String) :
    let start := Options.initial code
    let final := (start.converse load lines).1
    run load code [] lines = run load code [] (processed lines) ∧
      final = (start.converse load (processed lines)).1 ∧
      (final.noAnd = true ↔
        Odd ((processed lines).countP fun line => Text.trim line == ":noand")) ∧
      IsLastSet (SetsLanguage load) (processed lines) start.selection final.selection ∧
      IsLastSet (SetsAlternative load) (processed lines) none final.alternative ∧
      (∀ o line, IsIdle load line → (Options.obey load o (Command.ofLine line)).1 = o) ∧
      ∀ before line after, lines = before ++ line :: after →
        (∀ l ∈ before, Text.trim l ≠ "exit") → IsIdle load line →
          let o := (start.converse load before).1
          let answer := (o.obey load (Command.ofLine line)).2
          (start.converse load (before ++ after)).1 = final ∧
            run load code [] lines =
              run load code [] before ++ (answer ++ [o.prompt]) ++ (o.converse load after).2 ∧
            run load code [] (before ++ after) =
              run load code [] before ++ (o.converse load after).2 := by
  intro start final
  have hstay : ∀ line ∈ processed lines, Text.trim line ≠ "exit" := by
    intro line hline
    simpa using List.mem_takeWhile_imp hline
  have hprocessed : start.converse load lines = start.converse load (processed lines) :=
    Options.converse_processed start lines
  have hfinal : final = (start.converse load (processed lines)).1 := congrArg Prod.fst hprocessed
  refine ⟨by rw [run_without_arguments, run_without_arguments, ← hprocessed], hfinal, ?_, ?_, ?_,
    fun o line => Options.afterLine_of_isIdle, ?_⟩
  · have heven : (start.converse load (processed lines)).1.noAnd = start.noAnd ↔ _ :=
      Options.converse_noAnd hstay start
    rw [hfinal, ← Nat.not_even_iff_odd, ← heven]
    show _ ↔ ¬ _ = false
    rw [Bool.not_eq_false]
  · rw [hfinal]
    exact Options.isLastSet_converse (·.selection)
      (fun o line selection hset => by rw [Options.afterLine_of_setsLanguage hset])
      (fun o line => Options.afterLine_selection) hstay start
  · rw [hfinal]
    exact Options.isLastSet_converse (·.alternative)
      (fun o line alternative => Options.afterLine_of_setsAlternative)
      (fun o line => Options.afterLine_alternative) hstay start
  · rintro before line after rfl hbefore hidle o answer
    have hrun := Options.converse_of_isIdle hbefore hidle start after
    have happend : start.converse load (before ++ after) = _ :=
      Options.converse_append hbefore start after
    refine ⟨?_, ?_, ?_⟩
    · exact (congrArg Prod.fst hrun).symm
    · rw [run_without_arguments, hrun]
      rfl
    · rw [run_without_arguments, happend]
      rfl

/-- Spanish is set and the conjunction switched off before the end, and the number in between is
answered without a trace. -/
theorem spanish_session :
    let load : String → Except Error Descriptor := fun _ => .error (.file .notFound)
    let lines := [" :lang es", "12", ":noand", "exit", ":lang fr"]
    let final := ((Options.initial none).converse load lines).1
    final.noAnd = true ∧ final.selection = .builtIn .spanish ∧ final.alternative = none ∧
      ((Options.initial none).converse load [" :lang es", ":noand", "exit", ":lang fr"]).1
        = final := by
  intro load lines final
  obtain ⟨-, -, hand, -, -, -, hdelete⟩ := session_state load none lines
  have hidle : IsIdle load "12" := by
    have hline : ∀ {command argument : String}, ¬ command.toList <+: "12".toList →
        ¬ Says command "12" argument := fun hnot h => h.trim_ne hnot (by decide)
    have hkeeps : ∀ selection, ¬ SetsLanguage load "12" selection := by
      rintro - (⟨h, -⟩ | ⟨h, -⟩) <;> exact hline (by decide) h
    refine ⟨by decide, by decide, hkeeps, ?_⟩
    rintro - (⟨h, -⟩ | h | h)
    · exact hline (by decide) h
    · exact hline (by decide) h
    · exact hkeeps _ h
  have hdeleted := (hdelete [" :lang es"] "12" [":noand", "exit", ":lang fr"] rfl (by decide)
    hidle).1
  exact ⟨hand.2 (by decide), rfl, rfl, hdeleted⟩

end Session
end NumberWords
