import NumberWords.Proofs.SortedMap
import NumberWords.Proofs.Speller.Alike
import NumberWords.Proofs.Speller.Lookup
import NumberWords.Words

/-!
Alternative bases as overlays.

The words of an alternative base come before those of the base wherever the base is asked, so to
spell with an alternative is to spell with the two put together as one base.  In the original
spelling every frame has the alternative.  In the other one the outer frame, its digits and its tail
have none, and the counts have it again and find the same words twice (`Overlaid`).
-/

namespace NumberWords

namespace Lexicon

variable {l : Lexicon} {n : Nat} {w : String}

theorem word?_eq_some_iff : l.word? n = some w ↔ ∃ e ∈ l.entries, e.1.toNat = n ∧ e.2 = w := by
  refine ⟨Descriptor.exists_entry_of_word?, ?_⟩
  rintro ⟨e, he, rfl, rfl⟩
  have hsome : (l.entries.find? fun e' => e'.1.toNat == e.1.toNat).isSome = true :=
    List.find?_isSome.2 ⟨e, he, beq_self_eq_true _⟩
  obtain ⟨e', hfind⟩ := Option.isSome_iff_exists.1 hsome
  have hkey := List.find?_some hfind
  have heq := SortedMap.eq_of_key_eq (List.mem_of_find?_eq_some hfind) he
    (UInt64.toNat_inj.1 (beq_iff_eq.1 hkey))
  rw [word?, hfind, heq]
  rfl

theorem word?_eq_none_iff : l.word? n = none ↔ ∀ e ∈ l.entries, e.1.toNat ≠ n := by
  rw [word?, Option.map_eq_none_iff, List.find?_eq_none]
  simp only [beq_iff_eq, ne_eq]

/-- A number has its word of the upper lexicon, else that of the lower one. -/
theorem word?_overlay (base l : Lexicon) (n : Nat) :
    Lexicon.word? (base.overlay l) n = (l.word? n).or (base.word? n) := by
  refine Option.ext fun w => ?_
  rw [word?_eq_some_iff, Option.or_eq_some_iff, word?_eq_some_iff, word?_eq_some_iff,
    word?_eq_none_iff]
  constructor
  · rintro ⟨e, he, rfl, rfl⟩
    rcases SortedMap.mem_overlay.1 he with he | ⟨hkey, he⟩
    · exact .inl ⟨e, he, rfl, rfl⟩
    · refine .inr ⟨fun e' he' heq => hkey ?_, e, he, rfl, rfl⟩
      rw [← UInt64.toNat_inj.1 heq]
      exact List.mem_map_of_mem he'
  · rintro (⟨e, he, rfl, rfl⟩ | ⟨hnone, e, he, rfl, rfl⟩)
    · exact ⟨e, SortedMap.mem_overlay.2 (.inl he), rfl, rfl⟩
    · refine ⟨e, SortedMap.mem_overlay.2 (.inr ⟨fun hkey => ?_, he⟩), rfl, rfl⟩
      obtain ⟨e', he', heq⟩ := List.mem_map.1 hkey
      exact hnone e' he' (congrArg UInt64.toNat heq)

end Lexicon

namespace Speller

def overlay (s : Speller) (l : Lexicon) : Speller :=
  { s with descriptor := { s.descriptor with base := s.descriptor.base.overlay l } }

/-- A frame with an alternative, and a frame that may do without. -/
structure Overlaid (name : String) (f f' : Frame) : Prop where
  alternative : f.alternative = some name
  alternative' : f'.alternative = none ∨ f'.alternative = some name
  noAnd : f.noAnd = f'.noAnd

variable {s : Speller} {name : String} {l : Lexicon} {f f' : Frame}

theorem alternative?_eq (hname : s.descriptor.alternatives.find? name = some l)
    (hf : f.alternative = some name) : s.alternative? f = some l := by
  rw [alternative?, hf]
  exact hname

theorem sameRules_overlay (s : Speller) (l : Lexicon) : s.SameRules (s.overlay l) where
  tensSeparator := rfl
  tailSeparator := rfl
  chunkSeparator := rfl
  keepsAnd := rfl
  joinsTail := rfl

theorem sameWords_overlay (hname : s.descriptor.alternatives.find? name = some l)
    (hwords : ∀ e ∈ l.entries, e.2 ≠ "") (hf : Overlaid name f f') :
    s.SameWords (s.overlay l) f f' := by
  have halt : s.alternative? f = some l := alternative?_eq hname hf.alternative
  have halt' : (s.overlay l).alternative? f' = none ∨ (s.overlay l).alternative? f' = some l := by
    refine hf.alternative'.imp (fun h => ?_) (alternative?_eq hname)
    rw [alternative?, h]
    rfl
  have hbase : ∀ n, Lexicon.word? (s.overlay l).descriptor.base n
      = (l.word? n).or (s.descriptor.base.word? n) := Lexicon.word?_overlay _ l
  have hfilter : ∀ n w, l.word? n = some w → (some w).filter (· != "") = some w := by
    intro n w hw
    obtain ⟨e, he, -, rfl⟩ := Lexicon.word?_eq_some_iff.1 hw
    simp [hwords e he]
  constructor
  · intro n
    rw [wholeWord?, wholeWord?, halt, hbase]
    refine congrArg _ ?_
    cases hw : l.word? n with
    | none => rcases halt' with halt' | halt' <;> simp [halt', hw]
    | some w => rcases halt' with halt' | halt' <;> simp [halt', hw, hfilter n w hw]
  · intro n
    rw [lexiconWord?, lexiconWord?, halt, hbase]
    cases hw : l.word? n <;> rcases halt' with halt' | halt' <;> simp [halt', hw]

theorem alike_overlay (hname : s.descriptor.alternatives.find? name = some l)
    (hwords : ∀ e ∈ l.entries, e.2 ≠ "")
    (hunits : ∀ unit ∈ s.descriptor.units.toList, ∃ u, unit = .inflected u ∧
      u.countBase = some name) : s.Alike (s.overlay l) (Overlaid name) where
  rules := sameRules_overlay s l
  words _ _ := sameWords_overlay hname hwords
  noAnd _ _ hf := hf.noAnd
  units := by
    refine List.forall₂_same.2 fun u hu => ⟨?_, rfl⟩
    obtain ⟨unit, hunit, hbase⟩ := hunits u.1 (List.of_mem_zip hu).1
    refine sameChunks_self (fun _ _ => sameWords_overlay hname hwords) ?_
    rw [hunit]
    exact { alternative := hbase, alternative' := .inr hbase, noAnd := rfl }

end Speller

namespace Options

/-- An alternative base whose words are not empty is an overlay of the base: below one hundred
always, and from there on if all counts use this alternative. -/
theorem spell_overlay {d : Descriptor} {name : String} {l : Lexicon} {n : Nat}
    (hname : d.alternatives.find? name = some l) (hwords : ∀ e ∈ l.entries, e.2 ≠ "")
    (hn : n < 100 ∨ ∀ unit ∈ d.units.toList, ∃ u, unit = .inflected u ∧ u.countBase = some name)
    (noAnd : Bool) :
    let merged : Descriptor := { d with base := d.base.overlay l }
    ({ alternative := some name, noAnd, selection := .custom d } : Options).spell n
      = ({ noAnd, selection := .custom merged } : Options).spell n := by
  intro merged
  refine spell_eq_of_scale rfl fun t => ?_
  have hf : Speller.Overlaid name { alternative := some name, noAnd } { noAnd } :=
    { alternative := rfl, alternative' := .inl rfl, noAnd := rfl }
  rcases hn with hn | hunits
  · exact (Speller.sameWords_overlay hname hwords hf).spell_eq (Speller.sameRules_overlay _ l) hn
  · exact (Speller.alike_overlay hname hwords hunits).spell_eq hf n

/-- The feminine two thousand and twenty-one in a Russian whose counts are all feminine, and the
feminine twenty-one in the usual one. -/
theorem feminine_twenty_one :
    let thousand : InflectedUnit :=
      { Descriptor.Slavic.declined "тысяча" "тысячи" "тысяч" with countBase := some "feminine" }
    let hundred : InflectedUnit :=
      { singular := "сто", compound := true, countBase := some "feminine" }
    let units : UnitSet := .ordered [.inflected hundred, .inflected thousand]
    let d : Descriptor := { Descriptor.russian with units }
    let feminine : Lexicon := { entries := [(1, "одна"), (2, "две")] }
    let merged (d : Descriptor) : Options :=
      { selection := .custom { d with base := d.base.overlay feminine } }
    (merged d).spell 2021 = .ok "две тысячи двадцать одна" ∧
      ({ alternative := some "feminine", selection := .custom d } : Options).spell 2021
        = (merged d).spell 2021 ∧
      ({ alternative := some "feminine", selection := .custom .russian } : Options).spell 21
        = (merged .russian).spell 21 := by
  intro thousand hundred units d feminine merged
  refine ⟨by decide +kernel, spell_overlay (l := feminine) rfl (by decide) (.inr ?_) false,
    spell_overlay (l := feminine) rfl (by decide) (.inl (by decide)) false⟩
  intro unit hunit
  rcases List.mem_pair.1 hunit with rfl | rfl
  · exact ⟨hundred, rfl, rfl⟩
  · exact ⟨thousand, rfl, rfl⟩

end Options
end NumberWords
