import NumberWords.Proofs.SortedMap
import NumberWords.Proofs.Speller.Alike
import NumberWords.Words

/-!
Three ways to write plain units.

A list of words alone is a list of plain units.  The same words are the singulars of units without
any other form or rule, and the words at the exponents of the first positions of the scale.  All
three have one table and make the same chunks, and so they spell every number alike under every
choice (`spell_plain_units`).
-/

namespace NumberWords

/-! ## The first positions of a scale -/

namespace Convention

variable (c : Convention) {words : List String} {k : Nat}

def firstExponents (k : Nat) : List Nat := (List.range k).filterMap c.exponent?

theorem firstExponents_sublist (hk : k ≤ positions) :
    (c.firstExponents k).Sublist (c.firstExponents positions) :=
  (List.range_sublist.2 hk).filterMap _

theorem firstExponents_ascend (hk : k ≤ positions) : (c.firstExponents k).Pairwise (· < ·) := by
  refine List.Pairwise.sublist (c.firstExponents_sublist hk) ?_
  cases c <;> decide

theorem firstExponents_bounds (hk : k ≤ positions) :
    ∀ e ∈ c.firstExponents k, 0 < e ∧ e < UInt32.size := by
  intro e he
  have hall : ∀ e ∈ c.firstExponents positions, 0 < e ∧ e < UInt32.size := by
    cases c <;> decide
  exact hall e ((c.firstExponents_sublist hk).subset he)

def firstKeys (k : Nat) : List UInt32 := (c.firstExponents k).map UInt32.ofNat

def wordsByExponent (words : List String) : SortedMap UInt32 String :=
  SortedMap.ofList ((c.firstKeys words.length).zip words)

theorem map_toNat_firstKeys (hk : k ≤ positions) :
    (c.firstKeys k).map (·.toNat) = c.firstExponents k := by
  rw [firstKeys, List.map_map]
  refine (List.map_congr_left fun e he => ?_).trans (List.map_id _)
  exact UInt32.toNat_ofNat_of_lt' (c.firstExponents_bounds hk e he).2

theorem length_firstKeys (hk : k ≤ positions) : (c.firstKeys k).length = k := by
  rw [firstKeys, List.length_map, firstExponents, c.length_filterMap_exponent? hk]

theorem firstKeys_ascend (hk : k ≤ positions) :
    (c.firstKeys k).Pairwise fun a b => compare a b = .lt := by
  have hpairs := c.firstExponents_ascend hk
  rw [← c.map_toNat_firstKeys hk, List.pairwise_map] at hpairs
  exact hpairs.imp fun h => compareOfLessAndEq_eq_lt.2 (UInt32.lt_iff_toNat_lt.2 h)

theorem entries_wordsByExponent (h : words.length ≤ positions) :
    (c.wordsByExponent words).entries = (c.firstKeys words.length).zip words := by
  have hkeys := c.firstKeys_ascend h
  rw [← List.map_fst_zip (c.length_firstKeys h).le] at hkeys
  have hascending := List.pairwise_map.1 hkeys
  exact congrArg _ (SortedMap.ofList_entries { entries := _, ascending := hascending })

theorem keys_wordsByExponent (h : words.length ≤ positions) :
    (c.wordsByExponent words).keys = c.firstKeys words.length := by
  rw [SortedMap.keys, c.entries_wordsByExponent h, List.map_fst_zip (c.length_firstKeys h).le]

theorem values_wordsByExponent (h : words.length ≤ positions) :
    (c.wordsByExponent words).values = words := by
  rw [SortedMap.values, c.entries_wordsByExponent h, List.map_snd_zip (c.length_firstKeys h).ge]

end Convention

/-! ## Tables -/

namespace Descriptor

variable {d : Descriptor} {units : List ScaleUnit} {words : List String}

theorem exponents_of_ordered (hu : d.units = .ordered units) (hne : units ≠ [])
    (hmany : units.length ≤ Convention.positions) :
    d.exponents = .ok (d.convention.firstExponents units.length) := by
  unfold exponents
  rw [hu]
  have hempty : units.isEmpty = false := List.isEmpty_eq_false_iff.2 hne
  simp only [hempty, Nat.not_lt.2 hmany, if_false, Bool.false_eq_true]
  rfl

theorem scale_of_exponents {es : List Nat} (h : d.exponents = .ok es) :
    d.scale = (ScaleTable.ofExponents es).mapError .descriptor := by
  rw [scale, h]
  rfl

/-- Ordered units have a table as long as there are positions for them. -/
theorem exists_speller_of_ordered (hu : d.units = .ordered units) (hne : units ≠ [])
    (hmany : units.length ≤ Convention.positions) : ∃ s, d.speller = .ok s := by
  have htable := ScaleTable.ofExponents_eq_ok
    (fun e he => (d.convention.firstExponents_bounds hmany e he).1)
    (d.convention.firstExponents_ascend hmany)
  have hscale : d.scale = .ok _ :=
    (scale_of_exponents (exponents_of_ordered hu hne hmany)).trans (congrArg _ htable)
  exact ⟨_, speller_of_scale hscale⟩

theorem exponents_wordsByExponent (hu : d.units = .byExponent (d.convention.wordsByExponent words))
    (hne : words ≠ []) (hmany : words.length ≤ Convention.positions) :
    d.exponents = .ok (d.convention.firstExponents words.length) := by
  have hkeys := d.convention.keys_wordsByExponent hmany
  have hempty : (d.convention.wordsByExponent words).isEmpty = false := by
    rw [← Bool.not_eq_true, SortedMap.isEmpty, List.isEmpty_iff]
    intro hnil
    apply hne
    rw [← d.convention.values_wordsByExponent hmany, SortedMap.values, hnil]
    rfl
  unfold exponents
  rw [hu]
  simp only [hempty, if_false, Bool.false_eq_true]
  rw [hkeys, d.convention.map_toNat_firstKeys hmany]

/-- The table of ordered units depends on their number alone. -/
theorem scale_eq_of_length (d : Descriptor) {units units' : List ScaleUnit}
    (h : units.length = units'.length) :
    scale { d with units := .ordered units } = scale { d with units := .ordered units' } := by
  have hempty : units.isEmpty = units'.isEmpty := by
    rw [Bool.eq_iff_iff, List.isEmpty_iff_length_eq_zero, List.isEmpty_iff_length_eq_zero, h]
  rw [scale, scale, exponents, exponents]
  simp only [h, hempty]
  rfl

theorem scale_wordsByExponent (hmany : words.length ≤ Convention.positions) :
    scale { d with units := .ordered (words.map .plain) }
      = scale { d with units := .byExponent (d.convention.wordsByExponent words) } := by
  cases words with
  | nil => rfl
  | cons w words =>
    have hplain : Descriptor.exponents { d with units := .ordered ((w :: words).map .plain) } = _ :=
      exponents_of_ordered rfl (List.cons_ne_nil _ _) (by rwa [List.length_map])
    rw [List.length_map] at hplain
    have hkeyed := exponents_wordsByExponent
      (d := { d with units := .byExponent (d.convention.wordsByExponent (w :: words)) })
      rfl (List.cons_ne_nil w words) hmany
    rw [scale_of_exponents hplain, scale_of_exponents hkeyed]
    rfl

end Descriptor

namespace Speller

theorem form_of_singular (w : String) (f : Form) :
    InflectedUnit.form { singular := w } f = w := by
  cases f <;> rfl

/-- A unit with a singular alone is as good as plain. -/
theorem sameChunks_singular {s s' : Speller}
    (hkeeps : s.descriptor.keepsAnd = s'.descriptor.keepsAnd) (w : String) :
    s.SameChunks s' Eq (.plain w) (.inflected { singular := w }) := by
  intro sub sub' f f' hf hsub tail position step count
  have hframe : s.countFrame (.plain w) = s'.countFrame (.inflected { singular := w }) := by
    rw [countFrame, countFrame, hkeeps, Bool.or_false]
  have hword : ScaleUnit.wordFor count tail (.plain w)
      = ScaleUnit.wordFor count tail (.inflected { singular := w }) :=
    (form_of_singular w _).symm
  show _ = Except.bind (sub' count _) _
  rw [unitChunk, hsub count _ _ hframe, hword]
  rfl

def ofUnits (d : Descriptor) (t : ScaleTable) (units : UnitSet) : Speller :=
  { descriptor := { d with units }, scale := t }

variable {d : Descriptor} {t : ScaleTable} {units units' : UnitSet}

theorem sameWords_ofUnits (f f' : Frame) (h : f = f') :
    (ofUnits d t units).SameWords (ofUnits d t units') f f' := by
  subst h
  exact { whole := fun _ => rfl, lexicon := fun _ => rfl }

theorem forall₂_zip {R : ScaleUnit → ScaleUnit → Prop} {units units' : List ScaleUnit}
    (h : List.Forall₂ R units units') (steps : List (Option Step)) :
    List.Forall₂ (fun u u' => R u.1 u'.1 ∧ u.2 = u'.2) (units.zip steps) (units'.zip steps) := by
  induction h generalizing steps with
  | nil => exact .nil
  | cons hu _ ih =>
    cases steps with
    | nil => exact .nil
    | cons step steps => exact .cons ⟨hu, rfl⟩ (ih steps)

/-- Units that make the same chunks spell alike, all else being the same. -/
theorem alike_ofUnits
    (h : List.Forall₂ ((ofUnits d t units).SameChunks (ofUnits d t units') Eq)
      units.toList units'.toList) :
    (ofUnits d t units).Alike (ofUnits d t units') Eq where
  rules :=
    { tensSeparator := rfl, tailSeparator := rfl, chunkSeparator := rfl, keepsAnd := rfl,
      joinsTail := rfl }
  words := sameWords_ofUnits
  noAnd _ _ hf := congrArg Frame.noAnd hf
  units := forall₂_zip h t.steps

theorem alike_of_toList_eq (h : units.toList = units'.toList) :
    (ofUnits d t units).Alike (ofUnits d t units') Eq := by
  refine alike_ofUnits ?_
  rw [← h]
  refine List.forall₂_same.2 fun unit _ => sameChunks_self sameWords_ofUnits ?_
  cases unit <;> rfl

theorem alike_singular (words : List String) :
    (ofUnits d t (.ordered (words.map .plain))).Alike
      (ofUnits d t (.ordered (words.map fun w => .inflected { singular := w }))) Eq := by
  refine alike_ofUnits (List.forall₂_map_left_iff.2 (List.forall₂_map_right_iff.2 ?_))
  exact List.forall₂_same.2 fun w _ => sameChunks_singular rfl w

end Speller

namespace Options

variable {words : List String}

/-- Plain words, units with these words as their only form, and the words at the exponents of the
first positions are one language, which is there as soon as there is a word. -/
theorem spell_plain_units (hmany : words.length ≤ Convention.positions) (d : Descriptor)
    (f : Frame) (n : Nat) :
    let spelt (units : UnitSet) : Except Error String :=
      Options.spell { toFrame := f, selection := .custom { d with units } } n
    spelt (.ordered (words.map .plain))
        = spelt (.ordered (words.map fun w => .inflected { singular := w })) ∧
      spelt (.ordered (words.map .plain))
        = spelt (.byExponent (d.convention.wordsByExponent words)) ∧
      (words ≠ [] → ∃ s, Descriptor.speller { d with units := .ordered (words.map .plain) }
        = .ok s) := by
  intro spelt
  have hlength : (words.map ScaleUnit.plain).length
      = (words.map fun w => ScaleUnit.inflected { singular := w }).length := by
    rw [List.length_map, List.length_map]
  have hvalues : UnitSet.toList (.ordered (words.map .plain))
      = UnitSet.toList (.byExponent (d.convention.wordsByExponent words)) :=
    congrArg (List.map ScaleUnit.plain) (d.convention.values_wordsByExponent hmany).symm
  refine ⟨?_, ?_, fun hne => ?_⟩
  · exact spell_eq_of_scale (Descriptor.scale_eq_of_length d hlength) fun t =>
      (Speller.alike_singular words).spell_eq rfl n
  · exact spell_eq_of_scale (Descriptor.scale_wordsByExponent hmany) fun t =>
      (Speller.alike_of_toList_eq hvalues).spell_eq rfl n
  · exact Descriptor.exists_speller_of_ordered rfl (mt List.map_eq_nil_iff.1 hne)
      (by rwa [List.length_map])

/-- The hundred and the thousand of the long scale, without the conjunction. -/
theorem hundred_and_thousand :
    let words := ["hundred", "thousand"]
    let d : Descriptor := { Descriptor.english with longScale := true }
    let spelt (units : UnitSet) : Except Error String :=
      Options.spell { noAnd := true, selection := .custom { d with units } } 21234
    words.length ≤ Convention.positions ∧
      (d.convention.wordsByExponent words).entries = [(2, "hundred"), (3, "thousand")] ∧
      spelt (.ordered (words.map .plain)) = .ok "twenty-one thousand two hundred thirty-four" ∧
      spelt (.ordered (words.map .plain))
        = spelt (.ordered (words.map fun w => .inflected { singular := w })) ∧
      spelt (.ordered (words.map .plain))
        = spelt (.byExponent (d.convention.wordsByExponent words)) ∧
      ∃ s, Descriptor.speller { d with units := .ordered (words.map .plain) } = .ok s := by
  intro words d spelt
  have hmany : words.length ≤ Convention.positions := by decide
  obtain ⟨hsingular, hkeyed, hspeller⟩ := spell_plain_units hmany d { noAnd := true } 21234
  exact ⟨hmany, by decide, by decide +kernel, hsingular, hkeyed, hspeller (by decide)⟩

end Options
end NumberWords
