import NumberWords.Proofs.Speller.Neighbours

/-!
Gender and short forms.

In Russian and Ukrainian the counts of thousands are feminine and everything else is masculine.  In
Spanish all counts end in short forms.  These are rules for neighbours, and each unit keeps them
with its own counts, so they hold in every text (`gender_in_place`).
-/

namespace NumberWords

namespace Text

theorem follows_of_isChain {R : String → String → Prop} {ws before after : List String}
    {w : String} (h : ws.IsChain R) (hws : ws = before ++ w :: after) :
    ∀ w' ∈ after.head?, R w w' := by
  rw [hws] at h
  exact (List.isChain_cons.1 (List.isChain_append.1 h).2.1).1

end Text

/-! ## The languages -/

namespace Language

def feminine : Language → List String
  | .russian => ["одна", "две"]
  | .ukrainian => ["одна", "дві"]
  | _ => []

def masculine : List String := ["один", "два"]

def thousandForms (l : Language) : List String :=
  match l.descriptor.units.toList[1]? with
  | some unit => unit.forms
  | none => []

/-- Feminine words stand before thousands, and masculine words do not. -/
def genderAdjacency (l : Language) : Adjacency where
  marked := l.feminine ++ masculine
  follows w w' := (w ∈ l.feminine → w' ∈ l.thousandForms) ∧ (w ∈ masculine → w' ∉ l.thousandForms)
  closes base w := (base = none → w ∉ l.feminine) ∧ (base = some "feminine" → w ∉ masculine)
  follows_of_not_mem _ hw _ :=
    ⟨fun h => absurd (List.mem_append_left _ h) hw, fun h => absurd (List.mem_append_right _ h) hw⟩
  closes_of_not_mem _ hw _ :=
    ⟨fun _ h => hw (List.mem_append_left _ h), fun _ h => hw (List.mem_append_right _ h)⟩

def fullForms : List String := ["uno", "veintiuno"]

/-- Full forms stand before nothing. -/
def apocopeAdjacency : Adjacency where
  marked := fullForms
  follows w _ := w ∉ fullForms
  closes base w := base = some "apocopated" → w ∉ fullForms
  follows_of_not_mem _ hw _ := hw
  closes_of_not_mem _ hw _ _ := hw

end Language

namespace Speller

open NumberWords.Language

variable {s : Speller} {f : Frame} {n : Nat} {w : String}

theorem mem_base_of_alternative_eq_none (hf : f.alternative = none)
    (hw : s.lexiconWord? f n = some w) : ∃ e ∈ s.descriptor.base.entries, e.2 = w := by
  rw [lexiconWord?, alternative?, hf] at hw
  obtain ⟨e, he, -, hword⟩ := Descriptor.exists_entry_of_word? hw
  exact ⟨e, he, hword⟩

/-- An alternative base keeps out words that it replaces. -/
theorem not_mem_of_alternative {name : String} {lexicon : Lexicon} {bad : List String}
    (hname : s.descriptor.alternatives.find? name = some lexicon)
    (hlexicon : ∀ e ∈ lexicon.entries, e.2 ∉ bad)
    (hbase : ∀ e ∈ s.descriptor.base.entries, e.2 ∈ bad → lexicon.word? e.1.toNat ≠ none)
    (hf : f.alternative = some name) (hw : s.lexiconWord? f n = some w) : w ∉ bad := by
  have halternative : s.alternative? f = some lexicon := by
    rw [alternative?, hf]
    exact hname
  rw [lexiconWord?, halternative] at hw
  rcases Option.or_eq_some_iff.1 hw with hlex | ⟨hnone, hword⟩
  · obtain ⟨e, he, -, rfl⟩ := Descriptor.exists_entry_of_word? hlex
    exact hlexicon e he
  · obtain ⟨e, he, rfl, rfl⟩ := Descriptor.exists_entry_of_word? hword
    exact fun hbad => hbase e he hbad hnone

theorem keeps_gender {l : Language} (hl : l.IsSlavic) (hs : l.descriptor.speller = .ok s) :
    s.Keeps l.genderAdjacency := by
  have hbase : ∀ e ∈ s.descriptor.base.entries, e.2 ∉ l.feminine := by
    rcases hl with rfl | rfl <;> (cases hs; decide +kernel)
  obtain ⟨lexicon, hname, hlexicon, hreplaced⟩ : ∃ lexicon,
      s.descriptor.alternatives.find? "feminine" = some lexicon ∧
      (∀ e ∈ lexicon.entries, e.2 ∉ masculine) ∧
      ∀ e ∈ s.descriptor.base.entries, e.2 ∈ masculine → lexicon.word? e.1.toNat ≠ none := by
    rcases hl with rfl | rfl <;> (cases hs; exact ⟨_, rfl, by decide, by decide⟩)
  have hcloses : ∀ (f : Frame) n w, s.lexiconWord? f n = some w →
      l.genderAdjacency.closes f.alternative w := by
    intro f n w hw
    refine ⟨fun hf => ?_, fun hf => not_mem_of_alternative hname hlexicon hreplaced hf hw⟩
    obtain ⟨e, he, rfl⟩ := mem_base_of_alternative_eq_none hf hw
    exact hbase e he
  have hunits : ∀ unit ∈ s.descriptor.units.toList, unit.isCompound = false → ∀ w ∈ unit.forms,
      unit.countBase? = some "feminine" ∧ w ∈ l.thousandForms ∨
        unit.countBase? = none ∧ w ∉ l.thousandForms := by
    rcases hl with rfl | rfl <;> (cases hs; decide +kernel)
  have hbeside : ∀ unit ∈ s.descriptor.units.toList, unit.isCompound = false → ∀ w ∈ unit.forms,
      ∀ w', l.genderAdjacency.closes unit.countBase? w' → l.genderAdjacency.follows w' w := by
    intro unit hunit hcompound w hw w' hcloses
    rcases hunits unit hunit hcompound w hw with ⟨hfeminine, hmem⟩ | ⟨hnone, hmem⟩
    · exact ⟨fun _ => hmem, fun hmasculine => absurd hmasculine (hcloses.2 hfeminine)⟩
    · exact ⟨fun hfeminine => absurd hfeminine (hcloses.1 hnone), fun _ => hmem⟩
  refine { joinsTail := ?_, chunkSeparator := ?_, tailSeparator := ?_, exceptions := ?_,
           tensSeparator := .inl ?_, empty := ?_, entries := ?_, closes := hcloses, forms := ?_,
           beside := hbeside }
  all_goals rcases hl with rfl | rfl <;> (cases hs; decide +kernel)

theorem keeps_apocope (hs : Language.spanish.descriptor.speller = .ok s) :
    s.Keeps apocopeAdjacency := by
  have hbeside : ∀ unit ∈ s.descriptor.units.toList, unit.isCompound = false →
      unit.countBase? = some "apocopated" := by
    cases hs
    decide +kernel
  obtain ⟨lexicon, hname, hlexicon, hreplaced⟩ : ∃ lexicon,
      s.descriptor.alternatives.find? "apocopated" = some lexicon ∧
      (∀ e ∈ lexicon.entries, e.2 ∉ fullForms) ∧
      ∀ e ∈ s.descriptor.base.entries, e.2 ∈ fullForms → lexicon.word? e.1.toNat ≠ none := by
    cases hs
    exact ⟨_, rfl, by decide, by decide⟩
  refine { joinsTail := ?_, chunkSeparator := ?_, tailSeparator := ?_, exceptions := ?_,
           tensSeparator := .inr ⟨"y", ?_, by decide⟩, empty := ?_, entries := ?_,
           closes := fun f n w hw hf => not_mem_of_alternative hname hlexicon hreplaced hf hw,
           forms := ?_,
           beside := fun unit hunit hcompound w _ w' hcloses =>
            hcloses (hbeside unit hunit hcompound) }
  all_goals
    cases hs
    decide +kernel

theorem exists_final_text {l : Language} (hs : l.descriptor.speller = .ok s) {a : Adjacency}
    (hk : s.Keeps a) (hn : n < Numeral.magnitudeBound) :
    ∃ text, ({ selection := .builtIn l } : Options).spell n = .ok text ∧ a.Final none text := by
  obtain ⟨-, es, h⟩ := scaled_of_speller hs
  obtain ⟨text, hspell⟩ := exists_spell_of_builtIn (f := {}) hs hn
  obtain ⟨r, hr, rfl⟩ := Fallible.map_eq_ok.1 hspell
  refine ⟨r.text s.descriptor, ?_, hk.final_read h hr⟩
  rw [Options.spell_eq { selection := .builtIn l } hs, hspell]
  rfl

/-- In Russian and Ukrainian a feminine word stands right before a form of the thousand, and the
masculine words of one and two do not.  In Spanish the full forms of one and twenty-one are last
words. -/
theorem gender_in_place (hn : n < Numeral.magnitudeBound) :
    (∀ l : Language, l.IsSlavic → ∃ text,
      ({ selection := .builtIn l } : Options).spell n = .ok text ∧
      ∀ before w after, Text.pieces text = before ++ w :: after →
        (w ∈ l.feminine → ∃ w' rest, after = w' :: rest ∧ w' ∈ l.thousandForms) ∧
        (w ∈ masculine → ∀ w' ∈ after.head?, w' ∉ l.thousandForms)) ∧
    ∃ text, ({ selection := .builtIn .spanish } : Options).spell n = .ok text ∧
      ∀ before w after, Text.pieces text = before ++ w :: after → w ∈ fullForms → after = [] := by
  refine ⟨fun l hl => ?_, ?_⟩
  · obtain ⟨s, hs⟩ := Descriptor.exists_speller l.validate_descriptor
    obtain ⟨text, hspell, hfinal⟩ := exists_final_text hs (keeps_gender hl hs) hn
    refine ⟨text, hspell, fun before w after hpieces => ?_⟩
    have hfollows := Text.follows_of_isChain hfinal.chain hpieces
    refine ⟨fun hfeminine => ?_, fun hmasculine w' hw' => (hfollows w' hw').2 hmasculine⟩
    cases after with
    | nil =>
      have hlast : w ∈ (Text.pieces text).getLast? := by
        rw [hpieces]
        exact List.getLast?_concat
      exact absurd hfeminine ((hfinal.last w hlast).1 rfl)
    | cons w' rest => exact ⟨w', rest, rfl, (hfollows w' rfl).1 hfeminine⟩
  · obtain ⟨s, hs⟩ := Descriptor.exists_speller Language.spanish.validate_descriptor
    obtain ⟨text, hspell, hfinal⟩ := exists_final_text hs (keeps_apocope hs) hn
    refine ⟨text, hspell, fun before w after hpieces hfull => ?_⟩
    have hfollows := Text.follows_of_isChain hfinal.chain hpieces
    cases after with
    | nil => rfl
    | cons w' rest => exact absurd hfull (hfollows w' rfl)

/-- In two million one thousand and twenty-one the one thousand is feminine in Russian, and in
Spanish the full form comes last. -/
theorem gender_of_two_million_one_thousand :
    Language.russian.IsSlavic ∧
      (∃ w' rest, ["тысяча", "двадцать", "один"] = w' :: rest ∧
        w' ∈ Language.russian.thousandForms) ∧
      ∃ before after, Text.pieces "dos millones mil veintiuno" = before ++ "veintiuno" :: after ∧
        after = [] := by
  have hl : Language.russian.IsSlavic := .inl rfl
  obtain ⟨hslavic, text', hspanish, hfull⟩ := gender_in_place (n := 2001021) (by decide)
  obtain ⟨text, hrussian, hgender⟩ := hslavic .russian hl
  have hrussian' : ({ selection := .builtIn .russian } : Options).spell 2001021
      = .ok "два миллиона одна тысяча двадцать один" := by
    decide +kernel
  have hspanish' : ({ selection := .builtIn .spanish } : Options).spell 2001021
      = .ok "dos millones mil veintiuno" := by
    decide +kernel
  obtain rfl := Except.ok.inj (hrussian.symm.trans hrussian')
  obtain rfl := Except.ok.inj (hspanish.symm.trans hspanish')
  have hpieces : Text.pieces "dos millones mil veintiuno"
      = ["dos", "millones", "mil"] ++ "veintiuno" :: [] := by
    decide +kernel
  exact ⟨hl, (hgender ["два", "миллиона"] "одна" _ (by decide +kernel)).1 (by decide),
    _, _, hpieces, hfull _ _ _ hpieces (by decide)⟩

end Speller
end NumberWords
