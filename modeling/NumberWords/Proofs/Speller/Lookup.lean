import NumberWords.Speller

/-!
Where the words of single numbers come from.

A word that a lookup finds stands in one of the lexicons of the language, so what holds of every
entry holds of every word.
-/

namespace NumberWords

namespace Descriptor

def lexicons (d : Descriptor) : List Lexicon := d.base :: d.exceptions :: d.alternatives.values

def Has (d : Descriptor) (n : Nat) (w : String) : Prop :=
  ∃ lexicon ∈ d.lexicons, ∃ e ∈ lexicon.entries, e.1.toNat = n ∧ e.2 = w

theorem exists_entry_of_word? {lexicon : Lexicon} {n : Nat} {w : String}
    (hw : lexicon.word? n = some w) : ∃ e ∈ lexicon.entries, e.1.toNat = n ∧ e.2 = w := by
  obtain ⟨e, he, rfl⟩ := Option.map_eq_some_iff.1 hw
  have hkey := List.find?_some he
  exact ⟨e, List.mem_of_find?_eq_some he, beq_iff_eq.1 hkey, rfl⟩

theorem Has.of_word? {d : Descriptor} {lexicon : Lexicon} (h : lexicon ∈ d.lexicons) {n : Nat}
    {w : String} (hw : lexicon.word? n = some w) : d.Has n w :=
  ⟨lexicon, h, exists_entry_of_word? hw⟩

end Descriptor

namespace Speller

variable {s : Speller} {f : Frame} {n : Nat} {w : String}

theorem alternative?_mem_values {lexicon : Lexicon} (h : s.alternative? f = some lexicon) :
    lexicon ∈ s.descriptor.alternatives.values := by
  obtain ⟨name, -, hname⟩ := Option.bind_eq_some_iff.1 h
  obtain ⟨before, after, hentries, -⟩ := List.lookup_eq_some_iff.1 hname
  refine List.mem_map.2 ⟨(name, lexicon), ?_, rfl⟩
  rw [hentries]
  exact List.mem_append_right before List.mem_cons_self

theorem alternative?_mem {lexicon : Lexicon} (h : s.alternative? f = some lexicon) :
    lexicon ∈ s.descriptor.lexicons :=
  List.mem_cons_of_mem _ (List.mem_cons_of_mem _ (alternative?_mem_values h))

theorem has_of_alternative (h : ((s.alternative? f).bind fun l => l.word? n) = some w) :
    s.descriptor.Has n w := by
  obtain ⟨lexicon, hlexicon, hw⟩ := Option.bind_eq_some_iff.1 h
  exact .of_word? (alternative?_mem hlexicon) hw

theorem has_of_lexiconWord? (h : s.lexiconWord? f n = some w) : s.descriptor.Has n w := by
  rcases Option.or_eq_some_iff.1 h with halt | ⟨-, hbase⟩
  · exact has_of_alternative halt
  · exact .of_word? List.mem_cons_self hbase

theorem exception_or_lexiconWord? (h : s.wholeWord? f n = some w) :
    s.descriptor.exceptions.word? n = some w ∨ s.lexiconWord? f n = some w := by
  rcases Option.or_eq_some_iff.1 h with hexc | ⟨-, hlex⟩
  · exact .inl hexc
  · refine .inr (Option.or_eq_some_iff.2 ?_)
    rcases Option.or_eq_some_iff.1 hlex with halt | ⟨hnone, hbase⟩
    · exact .inl halt
    · exact .inr ⟨hnone, Option.eq_some_of_filter_eq_some hbase⟩

theorem has_of_wholeWord? (h : s.wholeWord? f n = some w) : s.descriptor.Has n w := by
  rcases exception_or_lexiconWord? h with hexc | hlex
  · exact .of_word? (List.mem_cons_of_mem _ List.mem_cons_self) hexc
  · exact has_of_lexiconWord? hlex

theorem base_empty_of_wholeWord? (h : s.wholeWord? f n = none)
    (hw : s.descriptor.base.word? n = some w) : w = "" := by
  have hbase := (Option.or_eq_none_iff.1 (Option.or_eq_none_iff.1 h).2).2
  rw [hw, Option.filter_eq_none_iff] at hbase
  simpa using hbase w rfl

theorem wholeWord?_eq_none (hexc : s.descriptor.exceptions.word? n = none)
    (halt : ∀ l, s.alternative? f = some l → l.word? n = none)
    (hbase : ∀ w, s.descriptor.base.word? n = some w → w = "") : s.wholeWord? f n = none := by
  have hbind : ((s.alternative? f).bind fun l => Lexicon.word? l n) = none :=
    Option.bind_eq_none_iff.2 halt
  have hfilter : (s.descriptor.base.word? n).filter (· != "") = none := by
    rw [Option.filter_eq_none_iff]
    intro w hw
    simp [hbase w hw]
  rw [wholeWord?, hexc, hbind, hfilter]
  rfl

/-- Keys have sixty-four bits, so no greater number has a word. -/
theorem wholeWord?_eq_none_of_le (hn : UInt64.size ≤ n) : s.wholeWord? f n = none := by
  cases hw : s.wholeWord? f n with
  | none => rfl
  | some w =>
    obtain ⟨lexicon, -, e, -, hkey, -⟩ := has_of_wholeWord? hw
    have hlt := e.1.toNat_lt_size
    omega

end Speller
end NumberWords
