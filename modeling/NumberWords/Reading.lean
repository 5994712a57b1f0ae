import NumberWords.Descriptor

/-!
Readings: how a number is said, as a tree, and the text of a reading.
-/

namespace NumberWords

mutual
inductive Reading where
  /-- A word of its own. -/
  | word (text : String)
  /-- A tens word and what is said of the digit below it. -/
  | tens (word : String) (unit : Reading)
  /-- Chunks, least significant first. -/
  | sum (chunks : List Chunk)

inductive Chunk where
  /-- The part below one hundred, with or without the tail separator before it. -/
  | tail (separated : Bool) (reading : Reading)
  /-- A count of the unit at a position, and the unit's word. -/
  | counted (position count : Nat) (phrase : Reading) (word : String)
  /-- A count of the unit at a position, said together with the unit in one word. -/
  | whole (position count : Nat) (word : String)
  /-- A conjunction of its own. -/
  | conjunction (word : String)
end

/-- Chunk texts, least significant first, in the order of speech: the most significant one first,
and the chunk separator before each later one.  A space stands between each two. -/
def Descriptor.joinChunks (d : Descriptor) (texts : List String) : String :=
  match texts.reverse with
  | [] => ""
  | top :: lower => " ".intercalate (top :: lower.map (d.chunkSeparator.getD "" ++ ·))

mutual
def Reading.text (d : Descriptor) : Reading → String
  | .word w => w
  | .tens w unit => w ++ d.tensSeparator ++ unit.text d
  | .sum chunks => d.joinChunks (Chunk.texts d chunks)

def Chunk.text (d : Descriptor) : Chunk → String
  | .tail separated r => if separated then d.tailSeparator ++ r.text d else r.text d
  | .counted _ _ phrase w => phrase.text d ++ " " ++ w
  | .whole _ _ w => w
  | .conjunction w => w

def Chunk.texts (d : Descriptor) : List Chunk → List String
  | [] => []
  | c :: rest => c.text d :: Chunk.texts d rest
end

theorem Chunk.texts_eq_map (d : Descriptor) (chunks : List Chunk) :
    Chunk.texts d chunks = chunks.map (Chunk.text d) := by
  induction chunks with
  | nil => rfl
  | cons c rest ih => rw [Chunk.texts, ih, List.map_cons]

end NumberWords
