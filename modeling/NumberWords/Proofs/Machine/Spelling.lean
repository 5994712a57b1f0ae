import NumberWords.Proofs.Machine.Table
import NumberWords.Proofs.Speller.Leftover
import NumberWords.Proofs.Speller.Unbounded

/-!
Spelling on words of 128 bits.

The machine computes with words, keeps the texts of the chunks in a list and goes through the units
with three registers.  Whatever the descriptor, it does what the speller does on natural numbers, at
every level and without a trap (`Machine.spell_eq`).  The invariant of the loop is `Registers`: they
stand for the visits so far.
-/

namespace NumberWords

open Fallible

structure Loop where
  /-- The texts of the chunks so far, least significant first. -/
  chunks : List String
  /-- The number without what the counted chunks took. -/
  remaining : Word
  /-- The threshold of the last unit with a count, zero before the first. -/
  lead : Word

namespace Loop

def push (l : Loop) (text : String) : Loop := { l with chunks := l.chunks ++ [text] }

end Loop

namespace Machine

abbrev Nested := Word → Frame → Run String

def countedVisit (s : Speller) (sub : Nested) (tail : Bool) (unit : ScaleUnit) (step : WordStep)
    (count : Word) (l : Loop) : Run Loop := do
  let phrase ← sub count (s.countFrame unit)
  let part ← count.mul step.threshold
  let remaining ← l.remaining.sub part
  .ok ({ l with remaining }.push (phrase ++ " " ++ unit.wordFor count.val tail))

def compoundVisit (s : Speller) (f : Frame) (step : WordStep) (count : Word) (l : Loop) :
    Run Loop := do
  let key ← count.mul step.threshold
  match s.lexiconWord? f key.val with
  | some w => .ok (l.push w)
  | none => .error (.fault (.missingWord key.val))

def unitVisit (s : Speller) (sub : Nested) (f : Frame) (tail : Bool) (index : Nat)
    (unit : ScaleUnit) (step : WordStep) (count : Word) (l : Loop) : Run Loop :=
  match unit with
  | .plain _ => countedVisit s sub tail unit step count l
  | .inflected u =>
    if u.compound then
      if u.exceptsCompound index count.val (!l.chunks.isEmpty) then
        .ok (l.push (u.ownWord count.val))
      else compoundVisit s f step count l
    else if listed u.bareCounts count.val then .ok (l.push (unit.wordFor count.val tail))
    else countedVisit s sub tail unit step count l

def visit (s : Speller) (sub : Nested) (f : Frame) (tail : Bool) (index : Nat) (unit : ScaleUnit)
    (step : WordStep) (l : Loop) : Run Loop := do
  let count ← step.count l.remaining
  if count.val = 0 then .ok l
  else unitVisit s sub f tail index unit step count { l with lead := step.threshold }

/-- The loop, up to the first unit without a threshold. -/
def walk (s : Speller) (sub : Nested) (f : Frame) (tail : Bool) :
    Nat → List (ScaleUnit × Option WordStep) → Loop → Run Loop
  | index, (unit, some step) :: rest, l => do
    let l ← visit s sub f tail index unit step l
    walk s sub f tail (index + 1) rest l
  | _, (_, none) :: _, l => .ok l
  | _, [], l => .ok l

/-- The chunks of the loop, with a bare conjunction after the lowest where one belongs. -/
def splice (d : Descriptor) (l : Loop) : Run (List String) :=
  if !d.joinsTail || l.lead.val == 0 then .ok l.chunks
  else do
    let rest ← l.remaining.rem l.lead
    match l.chunks with
    | [] => .ok []
    | lowest :: _ =>
      if rest.val != 0 && !d.tailSeparator.toList.isPrefixOf lowest.toList then
        Run.insertAt l.chunks 1 (Text.trim d.tailSeparator)
      else .ok l.chunks

def assemble (d : Descriptor) (texts : List String) : Run String :=
  match d.chunkSeparator.filter (· != "") with
  | some separator => do
    let separated ← Run.changeBefore texts (texts.length - 1) (separator ++ ·)
    .ok (" ".intercalate separated.reverse)
  | none => .ok (" ".intercalate texts.reverse)

def spellTens (s : Speller) (sub : Nested) (n : Word) (f : Frame) : Run String := do
  let quotient ← n.div (.literal 10)
  let tens ← quotient.mul (.literal 10)
  let unit ← n.sub tens
  let word := (s.lexiconWord? f tens.val).getD ""
  if unit.val = 0 then .ok word
  else (word ++ s.descriptor.tensSeparator ++ ·) <$> sub unit f

def tailTexts (s : Speller) (sub : Nested) (trailing : Word) (f : Frame) : Run (List String) :=
  if trailing.val = 0 then .ok []
  else (fun words => [if s.separatesTail f then s.descriptor.tailSeparator ++ words else words])
    <$> sub trailing f

def spellSum (s : Speller) (steps : List (Option WordStep)) (sub : Nested) (n : Word) (f : Frame) :
    Run String := do
  let trailing ← n.rem (.literal 100)
  let chunks ← tailTexts s sub trailing f
  let l ← walk s sub f (trailing.val != 0) 0 (s.descriptor.units.toList.zip steps)
    { chunks, remaining := n, lead := .literal 0 }
  let texts ← splice s.descriptor l
  assemble s.descriptor texts

def spell (s : Speller) (steps : List (Option WordStep)) : Nat → Nested
  | 0, _, _ => .error (.fault .tooDeep)
  | levels + 1, n, f =>
    match s.wholeWord? f n.val with
    | some w => .ok w
    | none =>
      if n.val < 100 then spellTens s (spell s steps levels) n f
      else spellSum s steps (spell s steps levels) n f

end Machine

/-! ## The registers stand for the visits -/

structure Registers (d : Descriptor) (l : Loop) (vs : List Visit) (l' : Loop) : Prop where
  chunks : l'.chunks = l.chunks ++ (vs.filterMap (·.chunk)).map (Chunk.text d)
  remaining : l'.remaining.val = l.remaining.val - Speller.spent vs
  lead : l'.lead.val = (Speller.leadThreshold? vs).getD l.lead.val
  lead_pos : ∀ t, Speller.leadThreshold? vs = some t → 0 < t

namespace Registers

variable {d : Descriptor} {l l' l'' : Loop} {v : Visit} {vs : List Visit}

theorem nil (d : Descriptor) (l : Loop) : Registers d l [] l where
  chunks := (List.append_nil l.chunks).symm
  remaining := rfl
  lead := rfl
  lead_pos := fun _ h => nomatch h

theorem cons (hv : Registers d l [v] l') (hvs : Registers d l' vs l'') :
    Registers d l (v :: vs) l'' where
  chunks := by
    rw [hvs.chunks, hv.chunks, List.append_assoc, ← List.map_append, ← List.filterMap_append]
    rfl
  remaining := by
    have hone : Speller.spent [v] = v.spent := rfl
    have hcons : Speller.spent (v :: vs) = v.spent + Speller.spent vs := rfl
    rw [hvs.remaining, hv.remaining, hone, hcons]
    omega
  lead := by
    have hlead := hv.lead
    rw [Speller.leadThreshold?_cons] at hlead
    rw [hvs.lead, hlead, Speller.leadThreshold?_cons v vs]
    cases Speller.leadThreshold? vs <;> rfl
  lead_pos := by
    intro t ht
    rw [Speller.leadThreshold?_cons] at ht
    rcases Option.or_eq_some_iff.1 ht with hrest | ⟨-, hfirst⟩
    · exact hvs.lead_pos t hrest
    · apply hv.lead_pos t
      rw [Speller.leadThreshold?_cons, hfirst]
      rfl

/-- Nothing happens at a unit without a count. -/
theorem of_zero {step : Step} (d : Descriptor) (l : Loop) :
    Registers d l [{ step, count := 0, chunk := none }] l where
  chunks := (List.append_nil l.chunks).symm
  remaining := rfl
  lead := rfl
  lead_pos := fun _ h => nomatch h

/-- A chunk goes behind the others, and the unit is the last one with a count. -/
theorem of_chunk {step : WordStep} {count : Nat} {chunk : Chunk}
    (hpos : 0 < step.threshold.val) (hcount : count ≠ 0)
    (hchunks : l'.chunks = l.chunks ++ [chunk.text d])
    (hremaining : l'.remaining.val
      = l.remaining.val - Visit.spent { step := step.toStep, count, chunk := some chunk })
    (hlead : l'.lead = step.threshold) :
    Registers d l [{ step := step.toStep, count, chunk := some chunk }] l' where
  chunks := hchunks
  remaining := hremaining
  lead := by
    rw [Speller.leadThreshold?_cons, if_neg hcount, hlead]
    rfl
  lead_pos := by
    intro t ht
    rw [Speller.leadThreshold?_cons, if_neg hcount] at ht
    cases ht
    exact hpos

end Registers

namespace Machine

variable {s : Speller} {sub : Speller.Nested} {sub' : Nested} {f : Frame} {tail : Bool}
variable {index : Nat} {unit : ScaleUnit} {step : WordStep} {count : Word} {l : Loop}

/-- The machine spells what a reading says. -/
abbrev Spells (d : Descriptor) : Run String → Except SpellFault Reading → Prop :=
  Mirrors Stop.fault fun text r => text = r.text d

/-- The registers after the chunk of a unit with this step and count. -/
structure Pushed (d : Descriptor) (l : Loop) (step : WordStep) (count : Word) (l' : Loop)
    (chunk : Chunk) : Prop where
  chunks : l'.chunks = l.chunks ++ [chunk.text d]
  remaining : l'.remaining.val
    = l.remaining.val - Visit.spent { step := step.toStep, count := count.val, chunk := some chunk }
  lead : l'.lead = l.lead

theorem countedVisit_spells (hsub : ∀ g, Spells s.descriptor (sub' count g) (sub count.val g))
    (hle : count.val * step.threshold.val ≤ l.remaining.val) :
    Mirrors Stop.fault (Pushed s.descriptor l step count)
      (countedVisit s sub' tail unit step count l) (do
        .ok (.counted index count.val (← sub count.val (s.countFrame unit))
          (unit.wordFor count.val tail))) := by
  refine (hsub _).bind fun phrase r hphrase => ?_
  obtain ⟨part, hpart, hval⟩ := Word.mul_gives (Nat.lt_of_le_of_lt hle l.remaining.isLt)
  obtain ⟨remaining, hremaining, hrest⟩ := Word.sub_gives (a := l.remaining) (b := part) (by omega)
  rw [hpart]
  show Mirrors _ _ (l.remaining.sub part >>= _) _
  rw [hremaining, hphrase]
  refine ⟨_, rfl, rfl, ?_, rfl⟩
  show remaining.val = l.remaining.val - count.val * step.threshold.val
  omega

theorem pushed_whole (d : Descriptor) (l : Loop) (step : WordStep) (count : Word) (index : Nat)
    (word : String) : Pushed d l step count (l.push word) (.whole index count.val word) where
  chunks := rfl
  remaining := rfl
  lead := rfl

theorem compoundVisit_spells (hle : count.val * step.threshold.val ≤ l.remaining.val) :
    Mirrors Stop.fault (Pushed s.descriptor l step count) (compoundVisit s f step count l)
      (match s.lexiconWord? f (count.val * step.threshold.val) with
        | some w => .ok (.whole index count.val w)
        | none => .error (.missingWord (count.val * step.threshold.val))) := by
  obtain ⟨key, hkey, hval⟩ := Word.mul_gives (Nat.lt_of_le_of_lt hle l.remaining.isLt)
  unfold compoundVisit
  rw [hkey, ← hval]
  show Mirrors _ _ (match s.lexiconWord? f key.val with
    | some w => Except.ok (l.push w)
    | none => Except.error (Stop.fault (.missingWord key.val))) _
  cases s.lexiconWord? f key.val with
  | none => exact rfl
  | some w => exact ⟨_, rfl, pushed_whole _ l step count index w⟩

/-- The lowest unit has a tail before it exactly when there are chunks already, so the machine may
ask for those. -/
theorem exceptsCompound_eq (u : InflectedUnit) (n : Nat)
    (htail : index = 0 → (!l.chunks.isEmpty) = tail) :
    u.exceptsCompound index n (!l.chunks.isEmpty) = u.exceptsCompound index n tail := by
  by_cases h0 : index = 0
  · rw [htail h0]
  · have hne : (index == 0) = false := by simpa using h0
    unfold InflectedUnit.exceptsCompound
    rw [hne, Bool.false_and, Bool.false_and]

theorem unitVisit_spells (hsub : ∀ g, Spells s.descriptor (sub' count g) (sub count.val g))
    (hle : count.val * step.threshold.val ≤ l.remaining.val)
    (htail : index = 0 → (!l.chunks.isEmpty) = tail) :
    Mirrors Stop.fault (Pushed s.descriptor l step count)
      (unitVisit s sub' f tail index unit step count l)
      (s.unitChunk sub f tail index unit step.toStep count.val) := by
  cases unit with
  | plain word => exact countedVisit_spells hsub hle
  | inflected u =>
    unfold unitVisit Speller.unitChunk
    by_cases hcompound : u.compound = true
    · simp only [hcompound, if_true]
      rw [exceptsCompound_eq u count.val htail]
      by_cases hexcept : u.exceptsCompound index count.val tail = true
      · rw [if_pos hexcept, if_pos hexcept]
        exact ⟨_, rfl, pushed_whole _ l step count index _⟩
      · rw [if_neg hexcept, if_neg hexcept]
        exact compoundVisit_spells hle
    · simp only [hcompound, if_false, Bool.false_eq_true]
      by_cases hbare : listed u.bareCounts count.val = true
      · rw [if_pos hbare, if_pos hbare]
        exact ⟨_, rfl, pushed_whole _ l step count index _⟩
      · rw [if_neg hbare, if_neg hbare]
        exact countedVisit_spells hsub hle

theorem visit_spells (hpos : step.Positive)
    (hsub : ∀ (w : Word) g, Spells s.descriptor (sub' w g) (sub w.val g))
    (htail : index = 0 → (!l.chunks.isEmpty) = tail) :
    Mirrors Stop.fault (fun l' v => Registers s.descriptor l [v] l')
      (visit s sub' f tail index unit step l)
      (s.visit sub f tail index unit step.toStep l.remaining.val) := by
  obtain ⟨count, hcount, hval⟩ := hpos.count_gives l.remaining
  have hmul := step.toStep.count_mul_le l.remaining.val
  unfold visit
  rw [hcount]
  show Mirrors _ _ (if count.val = 0 then Except.ok l
    else unitVisit s sub' f tail index unit step count { l with lead := step.threshold }) _
  rw [← hval] at hmul
  by_cases h0 : count.val = 0
  · rw [if_pos h0, Speller.visit_of_zero (by omega), ← hval, h0]
    exact ⟨l, rfl, Registers.of_zero s.descriptor l⟩
  · rw [if_neg h0, Speller.visit_of_ne_zero (by omega), ← hval]
    let marked : Loop := { l with lead := step.threshold }
    have hunit : Mirrors Stop.fault (Pushed s.descriptor marked step count)
        (unitVisit s sub' f tail index unit step count marked)
        (s.unitChunk sub f tail index unit step.toStep count.val) :=
      unitVisit_spells (fun g => hsub count g) hmul htail
    exact hunit.map_right fun l' chunk h =>
      Registers.of_chunk hpos.threshold h0 h.chunks h.remaining h.lead

/-- The loop ends with the registers of the walk. -/
theorem walk_spells {steps : List (Option WordStep)}
    (hpos : ∀ step, some step ∈ steps → step.Positive)
    (hsub : ∀ (w : Word) g, Spells s.descriptor (sub' w g) (sub w.val g))
    (htail : index = 0 → (!l.chunks.isEmpty) = tail) (units : List ScaleUnit) :
    Mirrors Stop.fault (fun l' vs => Registers s.descriptor l vs l')
      (walk s sub' f tail index (units.zip steps) l)
      (s.visits sub f tail index (units.zip (steps.map (Option.map (·.toStep))))
        l.remaining.val) := by
  induction steps generalizing index units l with
  | nil =>
    rw [List.map_nil, List.zip_nil_right, List.zip_nil_right]
    exact ⟨l, rfl, Registers.nil _ l⟩
  | cons step steps ih =>
    cases units with
    | nil => exact ⟨l, rfl, Registers.nil _ l⟩
    | cons unit units =>
      cases step with
      | none => exact ⟨l, rfl, Registers.nil _ l⟩
      | some step =>
        rw [List.map_cons, List.zip_cons_cons, List.zip_cons_cons, Option.map_some,
          Speller.visits_cons]
        refine (visit_spells (hpos step List.mem_cons_self) hsub htail).bind fun l' v hv => ?_
        have hremaining : l'.remaining.val = l.remaining.val - v.spent := hv.remaining
        have hlater : index + 1 = 0 → (!l'.chunks.isEmpty) = tail := fun h0 => by omega
        have hrest := ih (fun st hst => hpos st (List.mem_cons_of_mem _ hst)) hlater units
        rw [← hremaining]
        exact hrest.map_right fun l'' vs hvs => hv.cons hvs

/-! ## The texts of a sum -/

/-- The conjunction goes in at a place of the list. -/
theorem splice_eq {cs : List Chunk} {k : Nat}
    (hchunks : l.chunks = cs.map (Chunk.text s.descriptor))
    (hk : k = if l.lead.val = 0 then 0 else l.remaining.val % l.lead.val) :
    splice s.descriptor l = .ok ((s.conjoin k cs).map (Chunk.text s.descriptor)) := by
  unfold splice
  by_cases hjoin : s.descriptor.joinsTail = true
  · by_cases h0 : l.lead.val = 0
    · rw [if_pos h0] at hk
      rw [hk, Speller.conjoin_zero, if_pos (by simp [h0]), hchunks]
    · rw [if_neg h0] at hk
      obtain ⟨rest, hrest, hval⟩ :=
        Word.rem_gives (a := l.remaining) (b := l.lead) (Nat.pos_of_ne_zero h0)
      rw [if_neg (by simp [hjoin, h0]), hrest, hk, ← hval, hchunks]
      cases cs with
      | nil => rfl
      | cons lowest higher =>
        show (if _ then Run.insertAt _ 1 _ else Except.ok _) = _
        unfold Speller.conjoin
        simp only [hjoin, Bool.true_and]
        split
        · rw [Run.insertAt_of_le (by simp)]
          rfl
        · rfl
  · rw [Speller.conjoin_of_not_joinsTail (by simpa using hjoin), if_pos (by simp [hjoin]), hchunks]

/-- The chunks below the most significant one make up the front of the list. -/
theorem assemble_eq (d : Descriptor) (texts : List String) :
    assemble d texts = .ok (d.joinChunks texts) := by
  rcases List.eq_nil_or_concat texts with rfl | ⟨lower, top, rfl⟩
  · unfold assemble
    cases d.chunkSeparator.filter (· != "") <;> rfl
  · have hreverse : (lower ++ [top]).reverse = top :: lower.reverse := by simp
    rw [List.concat_eq_append]
    unfold assemble Descriptor.joinChunks
    cases hfilter : d.chunkSeparator.filter (· != "") with
    | none =>
      have hnone : d.chunkSeparator.getD "" = "" := by
        cases hseparator : d.chunkSeparator with
        | none => rfl
        | some separator => simpa [hseparator] using hfilter
      rw [hreverse, hnone]
      simp
    | some separator =>
      obtain ⟨hseparator, -⟩ := Option.filter_eq_some_iff.1 hfilter
      rw [hseparator, hreverse]
      show (Run.changeBefore (lower ++ [top]) _ _ >>= _) = _
      rw [Run.changeBefore_of_le (Nat.sub_le _ _)]
      simp [bind, Except.bind, List.map_reverse]

theorem tailTexts_spells {trailing n : Word} (htrailing : trailing.val = n.val % 100)
    (hsub : ∀ (w : Word) g, Spells s.descriptor (sub' w g) (sub w.val g)) :
    Mirrors Stop.fault
      (fun texts chunks => texts = chunks.map (Chunk.text s.descriptor) ∧
        (!texts.isEmpty) = (n.val % 100 != 0))
      (tailTexts s sub' trailing f) (s.tailChunks sub n.val f) := by
  unfold tailTexts Speller.tailChunks
  rw [htrailing]
  by_cases h0 : n.val % 100 = 0
  · rw [if_pos h0, if_pos h0, h0]
    exact ⟨[], rfl, rfl, rfl⟩
  · rw [if_neg h0, if_neg h0, ← htrailing]
    refine (hsub trailing f).map fun words r hwords => ⟨?_, ?_⟩
    · rw [hwords]
      rfl
    · simp [htrailing, h0]

theorem spellTens_spells {n : Word}
    (hsub : ∀ (w : Word) g, Spells s.descriptor (sub' w g) (sub w.val g)) :
    Spells s.descriptor (spellTens s sub' n f) (s.readTens sub n.val f) := by
  have hten : (Word.literal 10).val = 10 := rfl
  have hbound := n.isLt
  obtain ⟨quotient, hquotient, hdiv⟩ := Word.div_gives (a := n) (b := .literal 10) (by decide)
  rw [hten] at hdiv
  obtain ⟨tens, htens, hmul⟩ := Word.mul_gives (a := quotient) (b := .literal 10)
    (by rw [hten]; omega)
  rw [hten] at hmul
  obtain ⟨unit, hunit, hsubtract⟩ := Word.sub_gives (a := n) (b := tens) (by omega)
  have hval : unit.val = n.val % 10 := by omega
  have hkey : tens.val = n.val / 10 * 10 := by omega
  unfold spellTens Speller.readTens
  rw [hquotient]
  show Mirrors _ _ (quotient.mul _ >>= _) _
  rw [htens]
  show Mirrors _ _ (n.sub tens >>= _) _
  rw [hunit, ← hval, ← hkey]
  show Mirrors _ _ (if unit.val = 0 then Except.ok ((s.lexiconWord? f tens.val).getD "")
    else ((s.lexiconWord? f tens.val).getD "" ++ s.descriptor.tensSeparator ++ ·)
      <$> sub' unit f) _
  by_cases h0 : unit.val = 0
  · rw [if_pos h0, if_pos h0]
    exact ⟨_, rfl, rfl⟩
  · rw [if_neg h0, if_neg h0]
    refine (hsub unit f).map fun text r htext => ?_
    rw [htext]
    rfl

theorem spellSum_spells {n : Word} {steps : List (Option WordStep)}
    (hsteps : steps.map (Option.map (·.toStep)) = s.scale.steps)
    (hpos : ∀ step, some step ∈ steps → step.Positive)
    (hsub : ∀ (w : Word) g, Spells s.descriptor (sub' w g) (sub w.val g)) :
    Spells s.descriptor (spellSum s steps sub' n f) (s.readSum sub n.val f) := by
  obtain ⟨trailing, htrailing, hval⟩ := Word.rem_gives (a := n) (b := .literal 100) (by decide)
  unfold spellSum Speller.readSum
  rw [htrailing]
  refine (tailTexts_spells hval hsub).bind fun texts lowest ⟨htexts, htail⟩ => ?_
  rw [hval]
  let l : Loop := { chunks := texts, remaining := n, lead := .literal 0 }
  have hfirst : 0 = 0 → (!l.chunks.isEmpty) = (n.val % 100 != 0) := fun _ => htail
  have hwalk := walk_spells (f := f) hpos hsub hfirst s.descriptor.units.toList
  rw [hsteps] at hwalk
  refine hwalk.bind fun l' visits hl' => ?_
  have hchunks : l'.chunks
      = (lowest ++ visits.filterMap (·.chunk)).map (Chunk.text s.descriptor) := by
    rw [hl'.chunks, List.map_append, ← htexts]
  have hleftover : Speller.leftover n.val visits
      = if l'.lead.val = 0 then 0 else l'.remaining.val % l'.lead.val := by
    rw [hl'.lead, hl'.remaining]
    unfold Speller.leftover
    cases hlead : Speller.leadThreshold? visits with
    | none => rfl
    | some t => exact (if_neg (Nat.ne_of_gt (hl'.lead_pos t hlead))).symm
  rw [splice_eq hchunks hleftover]
  refine ⟨_, assemble_eq s.descriptor _, ?_⟩
  show _ = Reading.text s.descriptor (.sum _)
  rw [Reading.text, Chunk.texts_eq_map]

/-! ## Every level -/

theorem spell_spells {steps : List (Option WordStep)}
    (hsteps : steps.map (Option.map (·.toStep)) = s.scale.steps)
    (hpos : ∀ step, some step ∈ steps → step.Positive) (levels : Nat) (n : Word) (f : Frame) :
    Spells s.descriptor (spell s steps levels n f) (s.read levels n.val f) := by
  induction levels generalizing n f with
  | zero => exact rfl
  | succ levels ih =>
    rw [spell, Speller.read]
    cases hw : s.wholeWord? f n.val with
    | some w =>
      rw [Speller.readStep_of_word hw]
      exact ⟨w, rfl, rfl⟩
    | none =>
      rcases Nat.lt_or_ge n.val 100 with hlt | hle
      · rw [Speller.readStep_of_lt hw hlt]
        simp only [hlt, if_true]
        exact spellTens_spells ih
      · rw [Speller.readStep_of_le hw hle]
        simp only [Nat.not_lt.2 hle, if_false]
        exact spellSum_spells hsteps hpos ih

/-- On words of 128 bits spelling is exact.  The table and every level come to their end without a
trap, with the words or the fault of the speller on natural numbers.  Those are also the words or
the fault over the table in which no threshold and no divisor is left out. -/
theorem spell_exact {d : Descriptor} {s : Speller} (h : d.speller = .ok s) :
    ∃ es steps, d.exponents = .ok es ∧ table es = .ok steps ∧
      (∀ levels n f, spell s steps levels n f =
        (Reading.text d <$> s.read levels n.val f).mapError .fault) ∧
      ∀ n f, spell s steps (deepestLevel + 1) n f = (s.spell n.val f).mapError .fault ∧
        (s.unbounded es).spell n.val f = s.spell n.val f := by
  obtain ⟨hd, es, hs⟩ := Speller.scaled_of_speller h
  obtain ⟨steps, htable, hsteps, hpos⟩ := table_eq hs.ascending
  have hlevels : ∀ levels n f, spell s steps levels n f =
      (Reading.text s.descriptor <$> s.read levels n.val f).mapError .fault :=
    fun levels n f => (spell_spells (hsteps.trans hs.steps.symm) hpos levels n f).eq
  refine ⟨es, steps, hd ▸ hs.exponents, htable, hd ▸ hlevels, fun n f => ⟨?_, ?_⟩⟩
  · rw [hlevels]
    rfl
  · show Reading.text s.descriptor <$> (s.unbounded es).read (deepestLevel + 1) n.val f = _
    rw [Speller.read_unbounded hs n.isLt]
    rfl

/-- Where the threshold of the unit above is not among the words, the count of a unit is the whole
quotient. -/
theorem hundred_quintillion_exact :
    let d : Descriptor :=
      { base := { entries := [(1, "one")] }
        units := .byExponent
          { entries := [(2, "hundred"), (30, "quintillion"), (45, "septillion")] } }
    ∃ s steps, d.speller = .ok s ∧ table [2, 30, 45] = .ok steps ∧
      spell s steps (deepestLevel + 1) (.literal (10 ^ 32)) {} =
        .ok "one hundred quintillion" := by
  intro d
  let s : Speller := ⟨d, ⟨ScaleTable.stepsOf [2, 30, 45]⟩⟩
  have hs : d.speller = .ok s := by rfl
  obtain ⟨es, steps, hes, htable, hspell, -⟩ := spell_exact hs
  cases hes
  refine ⟨s, steps, hs, htable, ?_⟩
  rw [hspell]
  decide

end Machine
end NumberWords
