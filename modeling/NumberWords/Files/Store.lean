import NumberWords.Descriptor.Decode
import NumberWords.Descriptor.Encode
import NumberWords.Files.Tree

/-!
Descriptors in files.  A descriptor is written to a temporary file beside its place and moved there,
so a reader finds the old content or the new one and no part of either.
-/

namespace NumberWords
/-- What a save is refused for reasons outside the tree, such as a missing permission or a full
disk. -/
structure Refusals where
  /-- A new directory at a place. -/
  directory : Path → Option FileFault := fun _ => none
  /-- The temporary file. -/
  temporary : Option FileFault := none
  /-- The content of the temporary file. -/
  content : Option FileFault := none
  /-- Moving the temporary file to its place. -/
  move : Option FileFault := none

namespace FileTree

/-- Write a content to a temporary file in a directory and move it to a written path.  A temporary
file that is not moved is removed. -/
def replace (t : FileTree) (refused : Refusals) (directory : Path) (content : ByteArray)
    (path : String) : FileTree × Except FileFault Unit :=
  match refused.temporary with
  | some fault => (t, .error fault)
  | none =>
    let temporary := t.freshName :: directory
    let written := t.put temporary (.file content)
    match refused.content.or refused.move with
    | some fault => (written.remove temporary, .error fault)
    | none =>
      match written.rename temporary path with
      | .ok t => (t, .ok ())
      | .error fault => (written.remove temporary, .error fault)

def save (t : FileTree) (d : Descriptor) (path : String) (refused : Refusals := {}) :
    FileTree × Except Error Unit :=
  match d.validate with
  | .error e => (t, .error e)
  | .ok () =>
    let parent := PathText.parent path
    match t.makeDirectories parent refused.directory with
    | (t, .error fault) => (t, .error (.file fault))
    | (t, .ok ()) =>
      match t.followToDirectory (PathText.origin parent) (PathText.steps parent) with
      | .error fault => (t, .error (.file fault))
      | .ok directory =>
        let (t, result) := t.replace refused directory d.encode.toUTF8 path
        (t, result.mapError .file)

end FileTree

def Descriptor.ofBytes (content : ByteArray) : Except Error Descriptor :=
  match String.fromUTF8? content with
  | some text => Descriptor.load text
  | none => .error (.file .notText)

def FileTree.load (t : FileTree) (path : String) : Except Error Descriptor := do
  Descriptor.ofBytes (← (t.read path).mapError .file)

end NumberWords
