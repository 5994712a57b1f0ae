import NumberWords.Scale

/-!
Which descriptors can be used: their units have a scale, each lexicon key from 100 on can be a
compound, and each alternative base that a unit names exists.
-/

namespace NumberWords
namespace Descriptor

def isCompoundKey (d : Descriptor) (scale : ScaleTable) (key : UInt64) : Bool :=
  (d.units.toList.zip scale.steps).any fun
    | (.inflected u, some step) => u.compound && key.toNat % step.threshold == 0
    | _ => false

/-- The first key of a lexicon that is neither below 100 nor a compound. -/
def strayKey? (d : Descriptor) (scale : ScaleTable) (lexicon : Lexicon) : Option UInt64 :=
  lexicon.keys.find? fun k => 100 ≤ k.toNat && !d.isCompoundKey scale k

def namedLexicons (d : Descriptor) : List (String × Lexicon) :=
  ("base", d.base) :: d.alternatives.entries

def unitFault? (d : Descriptor) : ScaleUnit → Option DescriptorFault
  | .inflected { singular, countBase := some name, .. } =>
    if (d.alternatives.find? name).isSome then none
    else some (.unknownAlternative singular name)
  | _ => none

/-- The first fault of the lexicons, else of the units. -/
def fault? (d : Descriptor) (scale : ScaleTable) : Option DescriptorFault :=
  (d.namedLexicons.findSome? fun (name, lexicon) =>
    (d.strayKey? scale lexicon).map (.strayKey name)).or
  (d.units.toList.findSome? d.unitFault?)

def validate (d : Descriptor) : Except Error Unit := do
  match d.fault? (← d.scale) with
  | some fault => .error (.descriptor fault)
  | none => .ok ()

end Descriptor
end NumberWords
