import NumberWords.Proofs.Speller.Agreement
import NumberWords.Proofs.Speller.Conjunction

/-!
Words beside each other.

Some words may stand only before certain others, and some only at the end of what is said with one
alternative base.  A count is said with the base of its unit and ends beside the unit word, and the
tail is said with the base that its number is said with and ends where its number ends.  So if each
unit word agrees with the ends of its own counts, the neighbours agree in every reading
(`final_read`).
-/

namespace NumberWords

open Fallible

/-! ## Texts as pieces -/

namespace Text

def pieces (t : String) : List String := (t.toList.splitOn ' ').map String.ofList

theorem pieces_append (a b : String) : pieces (a ++ " " ++ b) = pieces a ++ pieces b := by
  have hchars : (a ++ " " ++ b).toList = a.toList ++ ' ' :: b.toList := by
    simp [String.toList_append]
  unfold pieces List.splitOn
  rw [hchars, List.splitOnP_append_cons _ _ (by rfl), List.map_append]

theorem pieces_of_not_mem {w : String} (h : ' ' ∉ w.toList) : pieces w = [w] := by
  have hletters : ∀ c ∈ w.toList, (c == ' ') = false := by
    intro c hc
    exact beq_eq_false_iff_ne.2 fun heq => h (heq ▸ hc)
  unfold pieces List.splitOn
  rw [List.splitOnP_eq_singleton hletters]
  simp

end Text

/-- What words may stand beside each other, and what words may end what is said with an alternative
base.  The rules say nothing of words that are not marked. -/
structure Adjacency where
  marked : List String
  follows : String → String → Prop
  closes : Option String → String → Prop
  follows_of_not_mem : ∀ w, w ∉ marked → ∀ w', follows w w'
  closes_of_not_mem : ∀ w, w ∉ marked → ∀ base, closes base w

namespace Adjacency

variable {a : Adjacency} {base : Option String} {t u w : String}

structure IsFree (a : Adjacency) (w : String) : Prop where
  spaceless : ' ' ∉ w.toList
  unmarked : w ∉ a.marked

instance (a : Adjacency) (w : String) : Decidable (a.IsFree w) :=
  decidable_of_iff (' ' ∉ w.toList ∧ w ∉ a.marked) ⟨fun h => ⟨h.1, h.2⟩, fun h => ⟨h.1, h.2⟩⟩

/-- The neighbours in a text agree, and it may stand at the end of what is said with a base. -/
structure Final (a : Adjacency) (base : Option String) (t : String) : Prop where
  chain : (Text.pieces t).IsChain a.follows
  last : ∀ w ∈ (Text.pieces t).getLast?, a.closes base w

/-- The neighbours in a text agree, and anything may follow it. -/
structure Medial (a : Adjacency) (t : String) : Prop where
  chain : (Text.pieces t).IsChain a.follows
  last : ∀ w ∈ (Text.pieces t).getLast?, w ∉ a.marked

theorem Medial.final (h : a.Medial t) (base : Option String) : a.Final base t where
  chain := h.chain
  last := fun w hw => a.closes_of_not_mem w (h.last w hw) base

theorem Final.of_word (hspace : ' ' ∉ w.toList) (h : a.closes base w) : a.Final base w where
  chain := by
    rw [Text.pieces_of_not_mem hspace]
    exact .singleton w
  last := by
    rw [Text.pieces_of_not_mem hspace]
    rintro _ ⟨rfl⟩
    exact h

theorem IsFree.medial (h : a.IsFree w) : a.Medial w where
  chain := by
    rw [Text.pieces_of_not_mem h.spaceless]
    exact .singleton w
  last := by
    rw [Text.pieces_of_not_mem h.spaceless]
    rintro _ ⟨rfl⟩
    exact h.unmarked

theorem getLast?_pieces_append (t u : String) :
    (Text.pieces (t ++ " " ++ u)).getLast? = (Text.pieces u).getLast? := by
  have hne : Text.pieces u ≠ [] := by simp [Text.pieces, List.splitOn, List.splitOnP_ne_nil]
  rw [Text.pieces_append, List.getLast?_append_of_ne_nil _ hne]

theorem Medial.chain_append (h : a.Medial t) (hu : (Text.pieces u).IsChain a.follows) :
    (Text.pieces (t ++ " " ++ u)).IsChain a.follows := by
  rw [Text.pieces_append]
  exact h.chain.append hu fun w hw w' _ => a.follows_of_not_mem w (h.last w hw) w'

theorem Medial.append (h : a.Medial t) (hu : a.Medial u) : a.Medial (t ++ " " ++ u) where
  chain := h.chain_append hu.chain
  last := by
    rw [getLast?_pieces_append]
    exact hu.last

theorem Medial.append_final (h : a.Medial t) (hu : a.Final base u) :
    a.Final base (t ++ " " ++ u) where
  chain := h.chain_append hu.chain
  last := by
    rw [getLast?_pieces_append]
    exact hu.last

/-- A count and a unit word that agrees with its end. -/
theorem Final.append_word (h : a.Final base t) (hw : a.IsFree w)
    (hfollows : ∀ w', a.closes base w' → a.follows w' w) : a.Medial (t ++ " " ++ w) where
  chain := by
    rw [Text.pieces_append, Text.pieces_of_not_mem hw.spaceless]
    refine h.chain.append (.singleton w) ?_
    rintro w' hw' _ ⟨rfl⟩
    exact hfollows w' (h.last w' hw')
  last := by
    rw [getLast?_pieces_append]
    exact hw.medial.last

end Adjacency

/-! ## Units -/

namespace ScaleUnit

def forms : ScaleUnit → List String
  | .plain w => [w]
  | .inflected u => [Form.singular, .dual, .few, .plural].map u.form

def isCompound : ScaleUnit → Bool
  | .plain _ => false
  | .inflected u => u.compound

def countBase? : ScaleUnit → Option String
  | .plain _ => none
  | .inflected u => u.countBase

theorem form_mem_forms (u : InflectedUnit) (f : Form) :
    u.form f ∈ (ScaleUnit.inflected u).forms := by
  cases f <;> simp [forms]

theorem wordFor_mem_forms (unit : ScaleUnit) (count : Nat) (tail : Bool) :
    unit.wordFor count tail ∈ unit.forms := by
  cases unit with
  | plain w => exact List.mem_cons_self
  | inflected u => exact form_mem_forms u _

theorem ownWord_mem_forms (u : InflectedUnit) (count : Nat) :
    u.ownWord count ∈ (ScaleUnit.inflected u).forms := by
  unfold InflectedUnit.ownWord
  split
  · exact form_mem_forms u .plural
  · exact form_mem_forms u .singular

end ScaleUnit

/-! ## Readings -/

namespace Speller

variable {s : Speller} {es : List Nat} {sub : Nested} {f : Frame} {n : Nat} {a : Adjacency}

/-- What makes the neighbours agree in all readings. -/
structure Keeps (s : Speller) (a : Adjacency) : Prop where
  joinsTail : s.descriptor.joinsTail = false
  chunkSeparator : s.descriptor.chunkSeparator = none
  tailSeparator : s.descriptor.tailSeparator = ""
  exceptions : s.descriptor.exceptions = SortedMap.empty
  tensSeparator : s.descriptor.tensSeparator = " " ∨
    ∃ w, s.descriptor.tensSeparator = " " ++ w ++ " " ∧ a.IsFree w
  empty : "" ∉ a.marked
  entries : ∀ lexicon ∈ s.descriptor.lexicons, ∀ e ∈ lexicon.entries,
    ' ' ∉ e.2.toList ∧ (e.1.toNat % 10 = 0 → e.2 ∉ a.marked)
  closes : ∀ (f : Frame) n w, s.lexiconWord? f n = some w → a.closes f.alternative w
  forms : ∀ unit ∈ s.descriptor.units.toList, ∀ w ∈ unit.forms, a.IsFree w
  beside : ∀ unit ∈ s.descriptor.units.toList, unit.isCompound = false → ∀ w ∈ unit.forms,
    ∀ w', a.closes unit.countBase? w' → a.follows w' w

theorem Scaled.ten_dvd (h : s.Scaled es) {r : Rung} (hr : r ∈ s.rungs) :
    10 ∣ r.step.threshold := by
  obtain ⟨e, -, hpos, -, ht⟩ := h.exists_exponent hr
  rw [ht]
  exact Nat.pow_dvd_pow 10 hpos

theorem alternative_countFrame (s : Speller) (unit : ScaleUnit) :
    (s.countFrame unit).alternative = unit.countBase? := by
  cases unit <;> rfl

theorem isCompound_of_isCounted {r : Rung} {c : Chunk} (hc : s.rungChunk sub f n r = .ok c)
    (hcounted : c.isCounted = true) : r.unit.isCompound = false := by
  cases hu : r.unit with
  | plain w => rfl
  | inflected u =>
    rw [rungChunk, hu] at hc
    rw [isCounted_unitChunk hc, Bool.and_eq_true] at hcounted
    have hcompound : u.compound = false := by simpa using hcounted.1
    exact hcompound

namespace Keeps

variable (hk : s.Keeps a)
include hk

theorem final_of_lexiconWord? {w : String} (hw : s.lexiconWord? f n = some w) :
    a.Final f.alternative w := by
  obtain ⟨lexicon, hlexicon, e, he, -, rfl⟩ := has_of_lexiconWord? hw
  exact .of_word (hk.entries lexicon hlexicon e he).1 (hk.closes f n _ hw)

theorem isFree_of_ten {w : String} (hw : s.lexiconWord? f n = some w) (hn : n % 10 = 0) :
    a.IsFree w := by
  obtain ⟨lexicon, hlexicon, e, he, hkey, rfl⟩ := has_of_lexiconWord? hw
  obtain ⟨hspace, hten⟩ := hk.entries lexicon hlexicon e he
  exact ⟨hspace, hten (hkey ▸ hn)⟩

theorem isFree_tens (f : Frame) (n : Nat) :
    a.IsFree ((s.lexiconWord? f (n / 10 * 10)).getD "") := by
  cases hw : s.lexiconWord? f (n / 10 * 10) with
  | none => exact ⟨by simp, hk.empty⟩
  | some w => exact hk.isFree_of_ten hw (Nat.mul_mod_left _ _)

theorem final_of_wholeWord? {w : String} (hw : s.wholeWord? f n = some w) :
    a.Final f.alternative w := by
  rcases exception_or_lexiconWord? hw with hexc | hlex
  · rw [hk.exceptions] at hexc
    cases hexc
  · exact hk.final_of_lexiconWord? hlex

theorem final_tens {w t : String} (hw : a.IsFree w) {base : Option String} (ht : a.Final base t) :
    a.Final base (w ++ s.descriptor.tensSeparator ++ t) := by
  rcases hk.tensSeparator with hsep | ⟨w', hsep, hw'⟩
  · rw [hsep]
    exact hw.medial.append_final ht
  · have htext : w ++ (" " ++ w' ++ " ") ++ t = w ++ " " ++ w' ++ " " ++ t := by
      simp only [String.append_assoc]
    rw [hsep, htext]
    exact (hw.medial.append hw'.medial).append_final ht

/-- The chunk of a unit has agreeing neighbours if the counts have. -/
theorem medial_rungChunk (h : s.Scaled es)
    (hsub : ∀ m g r, sub m g = .ok r → a.Final g.alternative (r.text s.descriptor)) {rung : Rung}
    (hrung : rung ∈ s.rungs) {c : Chunk} (hc : s.rungChunk sub f n rung = .ok c) :
    a.Medial (c.text s.descriptor) := by
  have hunit := List.mem_of_getElem? (h.mem_rungs_iff.1 hrung).1
  have hword := rung.unit.wordFor_mem_forms (rung.step.count n) (n % 100 != 0)
  rcases unitChunk_eq_ok hc with
    ⟨phrase, hphrase, hchunk⟩ | ⟨w, rfl, hform | ⟨u, hu, -, hown⟩ | hw⟩
  · have hcounted : c.isCounted = true := by rw [hchunk]; rfl
    have hfinal := hsub _ _ _ hphrase
    rw [s.alternative_countFrame] at hfinal
    rw [hchunk]
    exact hfinal.append_word (hk.forms _ hunit _ hword)
      (hk.beside _ hunit (isCompound_of_isCounted hc hcounted) _ hword)
  · rw [Chunk.text, hform]
    exact (hk.forms _ hunit _ hword).medial
  · rw [hu] at hunit
    rw [Chunk.text, hown]
    exact (hk.forms _ hunit _ (ScaleUnit.ownWord_mem_forms u _)).medial
  · exact (hk.isFree_of_ten hw (Nat.mod_eq_zero_of_dvd
      (Nat.dvd_mul_left_of_dvd (h.ten_dvd hrung) _))).medial

theorem medial_joinChunks {ts : List String} (hne : ts ≠ []) (h : ∀ t ∈ ts, a.Medial t) :
    a.Medial (s.descriptor.joinChunks ts) := by
  induction ts with
  | nil => exact absurd rfl hne
  | cons t ts ih =>
    obtain ⟨ht, hts⟩ := List.forall_mem_cons.1 h
    by_cases hnil : ts = []
    · subst hnil
      exact ht
    · rw [s.descriptor.joinChunks_cons t hnil, hk.chunkSeparator]
      have hmedial := (ih hnil hts).append ht
      simpa using hmedial

theorem final_joinChunks {base : Option String} {t : String} {ts : List String}
    (ht : a.Final base t) (h : ∀ t ∈ ts, a.Medial t) :
    a.Final base (s.descriptor.joinChunks (t :: ts)) := by
  by_cases hnil : ts = []
  · subst hnil
    exact ht
  · rw [s.descriptor.joinChunks_cons t hnil, hk.chunkSeparator]
    have hfinal := (hk.medial_joinChunks hnil h).append_final ht
    simpa using hfinal

/-- A sum has agreeing neighbours if the numbers read inside it have. -/
theorem final_readSum (h : s.Scaled es)
    (hsub : ∀ m g r, sub m g = .ok r → a.Final g.alternative (r.text s.descriptor)) {r : Reading}
    (hr : s.readSum sub n f = .ok r) : a.Final f.alternative (r.text s.descriptor) := by
  obtain ⟨k, lowest, higher, hlowest, hhigher, rfl⟩ := exists_chunks_of_readSum h hr
  rw [conjoin_of_not_joinsTail hk.joinsTail, Reading.text, Chunk.texts_eq_map, List.map_append]
  have hmedial : ∀ t ∈ higher.map (Chunk.text s.descriptor), a.Medial t := by
    intro t ht
    obtain ⟨c, hc, rfl⟩ := List.mem_map.1 ht
    obtain ⟨rung, hrung, -, hchunk⟩ := exists_rung_of_mem hhigher hc
    exact hk.medial_rungChunk h hsub hrung hchunk
  rcases tailChunks_eq_ok hlowest with ⟨-, rfl⟩ | ⟨-, tail, htail, rfl⟩
  · rw [List.map_nil, List.nil_append]
    cases hts : higher.map (Chunk.text s.descriptor) with
    | nil => exact (Adjacency.IsFree.medial ⟨by decide, hk.empty⟩).final _
    | cons t ts =>
      rw [hts] at hmedial
      exact (hk.medial_joinChunks (List.cons_ne_nil t ts) hmedial).final _
  · have htext : (Chunk.tail (s.separatesTail f) tail).text s.descriptor
        = tail.text s.descriptor := by
      rw [Chunk.text, hk.tailSeparator, String.empty_append, ite_self]
    rw [List.map_singleton, htext]
    exact hk.final_joinChunks (hsub _ _ _ htail) hmedial

/-- The neighbours agree in what is said of any number, and its end agrees with its base. -/
theorem final_read (h : s.Scaled es) {levels : Nat} {r : Reading}
    (hr : s.read levels n f = .ok r) : a.Final f.alternative (r.text s.descriptor) := by
  induction levels generalizing n f r with
  | zero => cases hr
  | succ levels ih =>
    rw [read] at hr
    cases hw : s.wholeWord? f n with
    | some w =>
      rw [readStep_of_word hw] at hr
      cases hr
      exact hk.final_of_wholeWord? hw
    | none =>
      rcases Nat.lt_or_ge n 100 with hlt | hle
      · rw [readStep_of_lt hw hlt] at hr
        have hten := hk.isFree_tens f n
        by_cases h0 : n % 10 = 0
        · rw [readTens_of_zero h0] at hr
          cases hr
          exact hten.medial.final _
        · rw [readTens_of_ne_zero h0] at hr
          obtain ⟨digit, hdigit, rfl⟩ := map_eq_ok.1 hr
          exact hk.final_tens hten (ih hdigit)
      · rw [readStep_of_le hw hle] at hr
        exact hk.final_readSum h (fun m g r hr => ih hr) hr

end Keeps
end Speller
end NumberWords
