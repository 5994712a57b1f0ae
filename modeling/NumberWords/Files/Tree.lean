import NumberWords.Error
import NumberWords.Files.Path

/-!
A tree of files with a working directory in it, and the operations that a program asks of it.

A written path is followed step by step, from the root or from the working directory: each step
needs a directory to start from, and the first step that cannot be taken is the fault.
-/

namespace NumberWords

inductive Entry where
  | directory
  | file (content : ByteArray)

/-- The entries by their places.  The working directory and those above it, up to the root, are
always there. -/
structure FileTree where
  workingDirectory : Path
  entries : List (Path × Entry)

namespace FileTree

open PathText (longestName)

/-- Nothing but a working directory below the root. -/
def empty : FileTree := { workingDirectory := ["work"], entries := [] }

def entry? (t : FileTree) (p : Path) : Option Entry :=
  if p.isSuffixOf t.workingDirectory then some .directory else t.entries.lookup p

def remove (t : FileTree) (p : Path) : FileTree :=
  { t with entries := t.entries.filter (·.1 != p) }

def put (t : FileTree) (p : Path) (e : Entry) : FileTree :=
  { t with entries := (p, e) :: (t.remove p).entries }

/-- Steps start only from a directory. -/
def enter (t : FileTree) (p : Path) : Except FileFault Path :=
  match t.entry? p with
  | some .directory => .ok p
  | some (.file _) => .error .notDirectory
  | none => .error .notFound

/-- Follow steps from a place.  The last one may lead to an entry that is not there. -/
def walk (t : FileTree) : Path → List PathStep → Except FileFault Path
  | p, [] => .ok p
  | p, step :: rest => do
    let p ← t.enter p
    match step with
    | .here => t.walk p rest
    | .up => t.walk p.tail rest
    | .into name =>
      if longestName < name.utf8ByteSize then .error .nameTooLong
      else t.walk (name :: p) rest

def start (t : FileTree) : Path.Origin → Path
  | .root => []
  | .workingDirectory => t.workingDirectory

def follow (t : FileTree) (origin : Path.Origin) (steps : List PathStep) : Except FileFault Path :=
  t.walk (t.start origin) steps

def followToDirectory (t : FileTree) (origin : Path.Origin) (steps : List PathStep) :
    Except FileFault Path := do
  t.enter (← t.follow origin steps)

def locate (t : FileTree) (path : String) : Except FileFault Path :=
  t.follow (PathText.origin path) (PathText.steps path)

def read (t : FileTree) (path : String) : Except FileFault ByteArray :=
  if PathText.hasZero path then .error .zeroInPath
  else if PathText.isTooLong path then .error .nameTooLong
  else if path.isEmpty then .error .notFound
  else do
    let p ← t.locate path
    let p ← if PathText.endsInSlash path then t.enter p else .ok p
    match t.entry? p with
    | some (.file content) => .ok content
    | some .directory => .error .isDirectory
    | none => .error .notFound

/-- Follow steps and make each directory that is missing; `made` tells whether one has been, and
`refuse` where none can be.  What has been made before a fault stays.  A file is no directory to go
on from, but once a directory has been made, each later place is asked for as a new one, and a file
there is an entry that exists already. -/
def makeAlong (refuse : Path → Option FileFault) (t : FileTree) (made : Bool) (p : Path) :
    List PathStep → FileTree × Except FileFault Unit
  | [] =>
    match t.entry? p with
    | some .directory => (t, .ok ())
    | _ => (t, .error .alreadyExists)
  | step :: rest =>
    match t.enter p, step with
    | .error fault, _ => (t, .error (if made then .alreadyExists else fault))
    | .ok p, .here => t.makeAlong refuse made p rest
    | .ok p, .up => t.makeAlong refuse made p.tail rest
    | .ok p, .into name =>
      let q := name :: p
      if longestName < name.utf8ByteSize then (t, .error .nameTooLong)
      else if (t.entry? q).isSome then t.makeAlong refuse made q rest
      else match refuse q with
        | some fault => (t, .error fault)
        | none => (t.put q .directory).makeAlong refuse true q rest

def makeDirectories (t : FileTree) (path : String)
    (refuse : Path → Option FileFault := fun _ => none) : FileTree × Except FileFault Unit :=
  if PathText.hasZero path then (t, .error .zeroInPath)
  else if PathText.isTooLong path then (t, .error .nameTooLong)
  else t.makeAlong refuse false (t.start (PathText.origin path)) (PathText.steps path)

def names (t : FileTree) : List String := t.workingDirectory ++ t.entries.flatMap (·.1)

/-- A name longer than every other one. -/
def freshName (t : FileTree) : String :=
  let longest := t.names.foldl (fun n name => max n name.length) 0
  String.ofList ('.' :: List.replicate longest '0')

/-- Move a file to a written path, over the file that is there. -/
def rename (t : FileTree) (source : Path) (target : String) : Except FileFault FileTree :=
  if PathText.hasZero target then .error .invalidArgument
  else if PathText.isTooLong target then .error .nameTooLong
  else if target.isEmpty then .error .notFound
  else do
    let steps := PathText.steps target
    let p ← t.followToDirectory (PathText.origin target) steps.dropLast
    match steps.getLast? with
    | some (.into name) =>
      let q := name :: p
      if longestName < name.utf8ByteSize then .error .nameTooLong
      else if PathText.endsInSlash target then .error .notDirectory
      else match t.entry? q, t.entry? source with
        | some .directory, _ => .error .isDirectory
        | _, none => .error .notFound
        | _, some e => .ok ((t.remove source).put q e)
    | _ => .error .busy

/-- The paths from the working directory to all entries below it, in ascending order; a directory
ends in a slash. -/
def listing (t : FileTree) : List String :=
  let written (e : Path × Entry) : String :=
    let path := "/".intercalate (e.1.take (e.1.length - t.workingDirectory.length)).reverse
    match e.2 with
    | .directory => path ++ "/"
    | .file _ => path
  let below := t.entries.filter fun e =>
    t.workingDirectory.isSuffixOf e.1 && e.1 != t.workingDirectory
  (below.map written).mergeSort fun a b => (compare a b).isLE

end FileTree
end NumberWords
