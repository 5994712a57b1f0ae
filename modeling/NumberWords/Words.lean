import NumberWords.Language
import NumberWords.Magnitude
import NumberWords.Speller

/-!
Writing an input out in words.
-/

namespace NumberWords

inductive Selection where
  | builtIn (language : Language)
  | custom (descriptor : Descriptor)

def Selection.descriptor : Selection → Descriptor
  | .builtIn l => l.descriptor
  | .custom d => d

structure Options extends Frame where
  selection : Selection := .builtIn .english

namespace Options

def spell (options : Options) (n : Nat) : Except Error String := do
  let s ← options.selection.descriptor.speller
  (s.spell n options.toFrame).mapError .spelling

theorem spell_eq (options : Options) {s : Speller}
    (hs : options.selection.descriptor.speller = .ok s) (n : Nat) :
    options.spell n = (s.spell n options.toFrame).mapError .spelling := by
  rw [spell, hs]
  rfl

/-- The words of an input.  An input without a magnitude has the empty text. -/
def write (options : Options) (input : Input) : Except Error String :=
  match input.magnitude with
  | .ok n => options.spell n
  | .error _ => .ok ""

end Options
end NumberWords
