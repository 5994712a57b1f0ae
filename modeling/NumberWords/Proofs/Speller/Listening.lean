import NumberWords.Proofs.Speller.Faults
import NumberWords.Proofs.Speller.TopDown

/-!
Hearing the number in its words.

A listener goes through a text word by word and keeps one number.  A number word adds to it.  A unit
word counts what has been heard below the unit, and leaves what has been heard from the unit on
(`Sense.hear`).  In English and Indian English every count lies below its own unit, so the listener
hears the number that was spelled (`listen_spell`), and two numbers never have the same words
(`english_spell_eq_iff`).
-/

namespace NumberWords

open Fallible

namespace Text

def isBreak (c : Char) : Bool := c = ' ' || c = '-'

def words (t : String) : List String :=
  ((t.toList.splitOnP isBreak).filter (· ≠ [])).map String.ofList

theorem words_empty : words "" = [] := by
  simp [words]

theorem words_append_break {c : Char} (hc : isBreak c = true) (a b : String) :
    words (a ++ String.singleton c ++ b) = words a ++ words b := by
  unfold words
  rw [String.toList_append, String.toList_append, String.toList_singleton, List.append_assoc,
    List.singleton_append, List.splitOnP_append_cons _ _ hc, List.filter_append, List.map_append]

theorem words_append_blank (a b : String) : words (a ++ " " ++ b) = words a ++ words b :=
  words_append_break (c := ' ') rfl a b

theorem words_append_hyphen (a b : String) : words (a ++ "-" ++ b) = words a ++ words b :=
  words_append_break (c := '-') rfl a b

/-- One word: a text without blanks and hyphens, not empty. -/
def IsWord (w : String) : Prop := w ≠ "" ∧ w.toList.all (!isBreak ·) = true

instance (w : String) : Decidable (IsWord w) := inferInstanceAs (Decidable (_ ∧ _))

theorem words_of_isWord {w : String} (h : IsWord w) : words w = [w] := by
  have hletters : ∀ c ∈ w.toList, isBreak c = false := by
    intro c hc
    simpa using List.all_eq_true.1 h.2 c hc
  have hne : w.toList ≠ [] := fun hnil => h.1 (String.toList_eq_nil_iff.1 hnil)
  rw [words, List.splitOnP_eq_singleton hletters]
  simp [hne]

end Text

inductive Sense where
  | number (k : Nat)
  | unit (threshold : Nat)
  | silent
deriving DecidableEq

/-- What has been heard after one more word.  A unit counts the part below it. -/
def Sense.hear (heard : Nat) : Sense → Nat
  | .number k => heard + k
  | .unit t => (heard / t + heard % t) * t
  | .silent => heard

namespace Speller

def sense (s : Speller) (w : String) : Sense :=
  match s.descriptor.base.entries.find? (·.2 == w) with
  | some e => .number e.1.toNat
  | none =>
    match s.rungs.find? (·.unit.word == w) with
    | some r => .unit r.step.threshold
    | none => .silent

def listenFrom (s : Speller) (heard : Nat) (text : String) : Nat :=
  (Text.words text).foldl (fun heard w => (s.sense w).hear heard) heard

def listen (s : Speller) (text : String) : Nat := s.listenFrom 0 text

end Speller

/-! ## The words of English -/

namespace Language

def IsEnglish (l : Language) : Prop := l = .english ∨ l = .indianEnglish

variable {l : Language} {s : Speller} (hl : l.IsEnglish)
include hl

/-- Indian English has other units only. -/
theorem descriptor_of_english :
    l.descriptor = { Descriptor.english with units := l.descriptor.units } := by
  rcases hl with rfl | rfl <;> rfl

theorem isWord_of_mem_base : ∀ e ∈ l.descriptor.base.entries, Text.IsWord e.2 := by
  rcases hl with rfl | rfl <;> decide

theorem base_below_hundred : ∀ e ∈ l.descriptor.base.entries, e.1.toNat < 100 := by
  rcases hl with rfl | rfl <;> decide

variable (hs : l.descriptor.speller = .ok s)
include hs

theorem sense_of_mem_base :
    ∀ e ∈ s.descriptor.base.entries, s.sense e.2 = .number e.1.toNat := by
  rcases hl with rfl | rfl
  · cases hs
    decide +kernel
  · cases hs
    decide +kernel

theorem sense_of_mem_rungs : ∀ r ∈ s.rungs, r.unit = .plain r.unit.word ∧
    Text.IsWord r.unit.word ∧ s.sense r.unit.word = .unit r.step.threshold := by
  rcases hl with rfl | rfl
  · cases hs
    decide +kernel
  · cases hs
    decide +kernel

theorem sense_and : s.sense "and" = .silent := by
  rcases hl with rfl | rfl
  · cases hs
    decide +kernel
  · cases hs
    decide +kernel

theorem divisor_le_threshold : ∀ r ∈ s.rungs, (∀ d ∈ r.step.divisor, d ≤ r.step.threshold) ∧
    (r.step.divisor = none → Numeral.magnitudeBound ≤ r.step.threshold * r.step.threshold) := by
  rcases hl with rfl | rfl
  · cases hs
    decide +kernel
  · cases hs
    decide +kernel

end Language

namespace Speller

variable {l : Language} {s : Speller} {f : Frame} {n : Nat}

theorem listenFrom_append_blank (heard : Nat) (a b : String) :
    s.listenFrom heard (a ++ " " ++ b) = s.listenFrom (s.listenFrom heard a) b := by
  unfold listenFrom
  rw [Text.words_append_blank, List.foldl_append]

theorem listenFrom_append_hyphen (heard : Nat) (a b : String) :
    s.listenFrom heard (a ++ "-" ++ b) = s.listenFrom (s.listenFrom heard a) b := by
  unfold listenFrom
  rw [Text.words_append_hyphen, List.foldl_append]

theorem listenFrom_empty (heard : Nat) : s.listenFrom heard "" = heard := by
  unfold listenFrom
  rw [Text.words_empty, List.foldl_nil]

theorem listenFrom_word (heard : Nat) {w : String} (h : Text.IsWord w) :
    s.listenFrom heard w = (s.sense w).hear heard := by
  unfold listenFrom
  rw [Text.words_of_isWord h]
  rfl

/-- A count below its unit is taken out of what has been heard, and the unit is put on. -/
theorem hear_unit {heard count t : Nat} (hdvd : t ∣ heard) (hlt : count < t) :
    Sense.hear (heard + count) (.unit t) = heard + count * t := by
  obtain ⟨k, rfl⟩ := hdvd
  have hpos : 0 < t := by omega
  show ((t * k + count) / t + (t * k + count) % t) * t = t * k + count * t
  rw [Nat.mul_add_div hpos, Nat.div_eq_of_lt hlt, Nat.mul_add_mod, Nat.mod_eq_of_lt hlt,
    Nat.add_zero, Nat.add_mul, Nat.mul_comm k t]

section

variable (hl : l.IsEnglish) (hs : l.descriptor.speller = .ok s)
include hl hs

theorem descriptor_of_english :
    s.descriptor = { Descriptor.english with units := l.descriptor.units } := by
  rw [(scaled_of_speller hs).1]
  exact Language.descriptor_of_english hl

theorem count_lt_threshold {r : Rung} (hr : r ∈ s.rungs) (hn : n < Numeral.magnitudeBound) :
    r.step.count n < r.step.threshold := by
  obtain ⟨-, es, h⟩ := scaled_of_speller hs
  obtain ⟨hsome, hnone⟩ := Language.divisor_le_threshold hl hs r hr
  cases hd : r.step.divisor with
  | some d =>
    have hlt := Step.count_lt_divisor hd (h.divisor_pos hr hd) n
    have hle := hsome d hd
    omega
  | none =>
    have hlt := Nat.lt_of_lt_of_le hn (hnone hd)
    unfold Step.count
    rw [hd]
    exact Nat.div_lt_of_lt_mul hlt

theorem alternative?_of_english (f : Frame) : s.alternative? f = none := by
  rw [alternative?, descriptor_of_english hl hs]
  cases f.alternative <;> rfl

theorem lexiconWord?_of_english (f : Frame) (n : Nat) :
    s.lexiconWord? f n = s.descriptor.base.word? n := by
  rw [lexiconWord?, alternative?_of_english hl hs]
  rfl

/-- A word of the base is one word, and says its number. -/
theorem listenFrom_base {w : String} (hw : s.descriptor.base.word? n = some w) :
    w ≠ "" ∧ ∀ heard, s.listenFrom heard w = heard + n := by
  obtain ⟨e, hmem, hkey, rfl⟩ := Descriptor.exists_entry_of_word? hw
  have hword : Text.IsWord e.2 :=
    Language.isWord_of_mem_base hl e (by rwa [(scaled_of_speller hs).1] at hmem)
  refine ⟨hword.1, fun heard => ?_⟩
  rw [listenFrom_word heard hword, Language.sense_of_mem_base hl hs e hmem, hkey]
  rfl

theorem wholeWord?_of_english (f : Frame) (n : Nat) :
    s.wholeWord? f n = s.descriptor.base.word? n := by
  have hexc : s.descriptor.exceptions.word? n = none := by
    rw [descriptor_of_english hl hs]
    rfl
  rw [wholeWord?, alternative?_of_english hl hs, hexc]
  show (s.descriptor.base.word? n).filter (· != "") = _
  cases hw : s.descriptor.base.word? n with
  | none => rfl
  | some w => simp [(listenFrom_base hl hs hw).1]

theorem wholeWord?_of_hundred_le (f : Frame) (hn : 100 ≤ n) : s.wholeWord? f n = none := by
  rw [wholeWord?_of_english hl hs]
  cases hw : s.descriptor.base.word? n with
  | none => rfl
  | some w =>
    obtain ⟨e, he, hkey, -⟩ := Descriptor.exists_entry_of_word? hw
    have hlt := Language.base_below_hundred hl e (by rwa [(scaled_of_speller hs).1] at he)
    omega

/-- Below one hundred, a word or two with a hyphen. -/
theorem listenFrom_spell_of_lt (hn : n < 100) {w : String} (hw : s.spell n f = .ok w)
    (heard : Nat) : s.listenFrom heard w = heard + n := by
  obtain ⟨hd, es, h⟩ := scaled_of_speller hs
  cases hbase : s.descriptor.base.word? n with
  | some word =>
    rw [spell, read, readStep_of_word ((wholeWord?_of_english hl hs f n).trans hbase)] at hw
    cases hw
    exact (listenFrom_base hl hs hbase).2 heard
  | none =>
    obtain ⟨tens, htens⟩ := Option.isSome_iff_exists.1 (l.ten_said (n / 10) (by omega))
    obtain ⟨digit, hdigit⟩ := Option.isSome_iff_exists.1 (l.digit_said (n % 10) (by omega))
    rw [← hd] at htens hdigit
    have h0 : n % 10 ≠ 0 := by
      intro h0
      rw [Nat.div_mul_cancel (Nat.dvd_of_mod_eq_zero h0), hbase] at htens
      cases htens
    have hwhole : s.wholeWord? f n = none := (wholeWord?_of_english hl hs f n).trans hbase
    have hread : s.read deepestLevel (n % 10) f = .ok (.word digit) := by
      rw [deepestLevel, read]
      exact readStep_of_word ((wholeWord?_of_english hl hs f _).trans hdigit)
    rw [spell, read, readStep_of_lt hwhole hn, readTens_of_ne_zero h0, hread,
      lexiconWord?_of_english hl hs, htens] at hw
    cases hw
    have hsep : s.descriptor.tensSeparator = "-" := by
      rw [descriptor_of_english hl hs]
      rfl
    show s.listenFrom heard (tens ++ s.descriptor.tensSeparator ++ digit) = heard + n
    rw [hsep, listenFrom_append_hyphen, (listenFrom_base hl hs htens).2,
      (listenFrom_base hl hs hdigit).2]
    omega

theorem listenFrom_chunksText_append (heard : Nat) (lower : List Chunk) (c : Chunk) :
    s.listenFrom heard (s.chunksText (lower ++ [c]))
      = s.listenFrom (s.listenFrom heard (c.text s.descriptor)) (s.chunksText lower) := by
  have hsep : s.descriptor.chunkSeparator.getD "" = "" := by
    rw [descriptor_of_english hl hs]
    rfl
  by_cases hnil : lower = []
  · subst hnil
    exact (listenFrom_empty _).symm
  · rw [chunksText_append hnil, hsep, String.empty_append, listenFrom_append_blank]

/-- The tail of a sum, with or without the conjunction before it. -/
theorem listenFrom_chunks_of_lt (hn : n < 100) {cs : List Chunk}
    (hcs : s.chunks (s.read deepestLevel) f n = .ok cs) (heard : Nat) :
    s.listenFrom heard (s.chunksText cs) = heard + n := by
  obtain ⟨-, es, h⟩ := scaled_of_speller hs
  rcases Nat.eq_zero_or_pos n with rfl | hpos
  · rw [chunks_zero h] at hcs
    cases hcs
    exact listenFrom_empty heard
  · have htail := chunks_of_lt_hundred (f := f) h (Language.threshold_first hs) hpos hn
    rw [hcs] at htail
    obtain ⟨w, hw, htext⟩ := map_eq_ok.1 htail.symm
    have hspell := listenFrom_spell_of_lt hl hs hn hw
    have hand : s.descriptor.tailSeparator = "and " := by
      rw [descriptor_of_english hl hs]
      rfl
    rw [← htext, hand]
    cases s.separatesTail f with
    | false => rw [if_neg (by decide), String.empty_append, hspell]
    | true =>
      have hblank : "and " = "and" ++ " " := rfl
      rw [if_pos rfl, hblank, listenFrom_append_blank, listenFrom_word heard (by decide),
        Language.sense_and hl hs]
      exact hspell heard

/-- A count of the top unit and its word add the count times the threshold. -/
theorem listenFrom_rungChunk {top : Rung} (hmem : top ∈ s.rungs) (hn : n < Numeral.magnitudeBound)
    (hcount : top.step.count n = n / top.step.threshold) {heard : Nat}
    (hdvd : top.step.threshold ∣ heard) {c : Chunk}
    (hc : s.rungChunk (s.read deepestLevel) f n top = .ok c)
    (hphrase : ∀ w, s.spell (n / top.step.threshold) (s.countFrame top.unit) = .ok w →
      s.listenFrom heard w = heard + n / top.step.threshold) :
    s.listenFrom heard (c.text s.descriptor)
      = heard + n / top.step.threshold * top.step.threshold := by
  obtain ⟨-, es, h⟩ := scaled_of_speller hs
  obtain ⟨hplain, hword, hsense⟩ := Language.sense_of_mem_rungs hl hs top hmem
  have hbound : n / top.step.threshold < Numeral.magnitudeBound :=
    Nat.lt_of_le_of_lt (Nat.div_le_self _ _) hn
  have hsmall : n / top.step.threshold < top.step.threshold :=
    hcount ▸ count_lt_threshold hl hs hmem hn
  rw [hplain] at hphrase
  rw [rungChunk, hplain, hcount] at hc
  obtain ⟨phrase, hread, rfl⟩ := map_eq_ok.1 hc
  have hspell : s.spell (n / top.step.threshold) (s.countFrame (.plain top.unit.word))
      = .ok (phrase.text s.descriptor) := by
    rw [spell_eq_read h hbound, hread]
    rfl
  rw [Chunk.text, listenFrom_append_blank, hphrase _ hspell]
  show s.listenFrom _ top.unit.word = _
  rw [listenFrom_word _ hword, hsense, hear_unit hdvd hsmall]

/-- What follows whole multiples of its units adds to them, by induction on the number: the count of
the top unit and the rest below the unit are smaller. -/
theorem listenFrom_spell (hn : n < Numeral.magnitudeBound)
    (hlast : ∀ last, s.scale.steps.getLast? = some (some last) →
      n < last.threshold * ScaleTable.lastDivisor) (heard : Nat)
    (hheard : ∀ r ∈ s.rungs, r.step.threshold ≤ n → r.step.threshold ∣ heard) :
    (∀ w, s.spell n f = .ok w → s.listenFrom heard w = heard + n) ∧
      ∀ cs, s.chunks (s.read deepestLevel) f n = .ok cs →
        s.listenFrom heard (s.chunksText cs) = heard + n := by
  obtain ⟨-, es, h⟩ := scaled_of_speller hs
  induction n using Nat.strongRecOn generalizing f heard with
  | ind n ih =>
    rcases Nat.lt_or_ge n 100 with hlt | hge
    · exact ⟨fun w hw => listenFrom_spell_of_lt hl hs hlt hw heard,
        fun cs hcs => listenFrom_chunks_of_lt hl hs hlt hcs heard⟩
    · have hsum : ∀ cs, s.chunks (s.read deepestLevel) f n = .ok cs →
          s.listenFrom heard (s.chunksText cs) = heard + n := by
        intro cs hcs
        obtain ⟨top, hmem, htop, hcount, hchunks⟩ :=
          exists_top_chunks h (Language.threshold_first hs) hge hlast
        have hten := h.ten_le_threshold hmem
        have hle := htop.le
        have hdvd := hheard top hmem hle
        have hquot : n / top.step.threshold < n := Nat.div_lt_self (by omega) (by omega)
        have hmod : n % top.step.threshold < top.step.threshold := Nat.mod_lt _ (by omega)
        rw [hchunks] at hcs
        obtain ⟨lower, hlower, hcs⟩ := bind_eq_ok.1 hcs
        obtain ⟨c, hc, hcs⟩ := bind_eq_ok.1 hcs
        cases hcs
        have hcounted := listenFrom_rungChunk hl hs hmem hn hcount hdvd hc
          (ih _ hquot (by omega) (fun last hlt => Nat.lt_trans hquot (hlast last hlt)) heard
            fun r hr hrle => hheard r hr (by omega)).1
        have hrest := (ih (n % top.step.threshold) (by omega) (f := f) (by omega)
          (fun last hlt => Nat.lt_trans (by omega) (hlast last hlt))
          (heard + n / top.step.threshold * top.step.threshold) fun r hr hrle =>
            Nat.dvd_add (hheard r hr (by omega))
              (Nat.dvd_mul_left_of_dvd (h.threshold_dvd hr hmem (by omega)) _)).2 _ hlower
        have hdiv := Nat.div_add_mod' n top.step.threshold
        rw [listenFrom_chunksText_append hl hs, hcounted, hrest]
        omega
      refine ⟨fun w hw => ?_, hsum⟩
      have hjoin : s.descriptor.joinsTail = false := by
        rw [descriptor_of_english hl hs]
        rfl
      rw [spell_eq_chunks h hjoin hge (wholeWord?_of_hundred_le hl hs f hge)] at hw
      obtain ⟨cs, hcs, rfl⟩ := map_eq_ok.1 hw
      exact hsum cs hcs

/-- A listener hears the number that is spelled. -/
theorem listen_spell (hn : n < Numeral.magnitudeBound)
    (hlast : ∀ last, s.scale.steps.getLast? = some (some last) →
      n < last.threshold * ScaleTable.lastDivisor) {w : String} (hw : s.spell n f = .ok w) :
    s.listen w = n := by
  have hheard := (listenFrom_spell (f := f) hl hs hn hlast 0 fun r _ _ => Nat.dvd_zero _).1 w hw
  rw [listen, hheard, Nat.zero_add]

theorem spell_injective {m : Nat} (hn : n < Numeral.magnitudeBound)
    (hm : m < Numeral.magnitudeBound)
    (hlastn : ∀ last, s.scale.steps.getLast? = some (some last) →
      n < last.threshold * ScaleTable.lastDivisor)
    (hlastm : ∀ last, s.scale.steps.getLast? = some (some last) →
      m < last.threshold * ScaleTable.lastDivisor)
    (h : s.spell n f = s.spell m f) : n = m := by
  obtain ⟨w, hw⟩ := exists_spell_of_builtIn (f := f) hs hn
  rw [← listen_spell hl hs hn hlastn hw, ← listen_spell hl hs hm hlastm (h ▸ hw)]

end

/-- The last English unit is no magnitude, and the last Indian one is the crore. -/
theorem lt_last_of_english (hs : l.descriptor.speller = .ok s)
    (hn : l = .english ∨ l = .indianEnglish ∧ n < 10 ^ 13) :
    ∀ last, s.scale.steps.getLast? = some (some last) →
      n < last.threshold * ScaleTable.lastDivisor := by
  intro last hlast
  rcases hn with rfl | ⟨rfl, hn⟩
  · have hnone : s.scale.steps.getLast? = some none := by
      cases hs
      rfl
    rw [hnone] at hlast
    cases hlast
  · have hcrore : s.scale.steps.getLast? =
        some (some { threshold := 10 ^ 7, divisor := some ScaleTable.lastDivisor }) := by
      cases hs
      rfl
    rw [hcrore] at hlast
    cases hlast
    exact hn

/-- In English two magnitudes have the same words only if they are the same, and in Indian English
two below a million crore. -/
theorem english_spell_eq_iff (o : Options) {n m : Nat}
    (ho : o.selection = .builtIn .english ∧ n < Numeral.magnitudeBound ∧
        m < Numeral.magnitudeBound ∨
      o.selection = .builtIn .indianEnglish ∧ n < 10 ^ 13 ∧ m < 10 ^ 13) :
    o.spell n = o.spell m ↔ n = m := by
  refine ⟨fun h => ?_, fun h => h ▸ rfl⟩
  obtain ⟨l, hol, hl, hn, hm, hnl, hml⟩ : ∃ l, o.selection = .builtIn l ∧ l.IsEnglish ∧
      n < Numeral.magnitudeBound ∧ m < Numeral.magnitudeBound ∧
      (l = .english ∨ l = .indianEnglish ∧ n < 10 ^ 13) ∧
      (l = .english ∨ l = .indianEnglish ∧ m < 10 ^ 13) := by
    rcases ho with ⟨hol, hn, hm⟩ | ⟨hol, hn, hm⟩
    · exact ⟨_, hol, .inl rfl, hn, hm, .inl rfl, .inl rfl⟩
    · have hbound : 10 ^ 13 < Numeral.magnitudeBound := by decide +kernel
      exact ⟨_, hol, .inr rfl, Nat.lt_trans hn hbound, Nat.lt_trans hm hbound, .inr ⟨rfl, hn⟩,
        .inr ⟨rfl, hm⟩⟩
  obtain ⟨s, hs⟩ := Descriptor.exists_speller l.validate_descriptor
  have hso : o.selection.descriptor.speller = .ok s := by
    rw [hol]
    exact hs
  rw [o.spell_eq hso, o.spell_eq hso] at h
  have hspell := mapError_injective (fun _ _ he => Error.spelling.inj he) h
  exact spell_injective hl hs hn hm (lt_last_of_english hs hnl) (lt_last_of_english hs hml) hspell

/-- Without conjunctions two million three hundred thousand is still told from two million three
hundred, and one lakh crore from one crore one lakh. -/
theorem lakh_crore_ne_crore_lakh :
    let english : Options := { noAnd := true }
    let indian : Options := { selection := .builtIn .indianEnglish, noAnd := true }
    100000 * 10000000 < 10 ^ 13 ∧ english.spell 2300000 ≠ english.spell 2000300 ∧
      indian.spell (100000 * 10000000) ≠ indian.spell (10000000 + 100000) := by
  intro english indian
  refine ⟨by decide, fun h => ?_, fun h => ?_⟩
  · have heq := (english_spell_eq_iff english (.inl ⟨rfl, by decide, by decide⟩)).1 h
    omega
  · have heq := (english_spell_eq_iff indian (.inr ⟨rfl, by decide, by decide⟩)).1 h
    omega

end Speller
end NumberWords
