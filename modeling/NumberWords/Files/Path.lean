/-!
Paths: the places of a file tree, and the texts that lead to them step by step.
-/

namespace NumberWords

/-- A place: the names on the way to it from the root, the last one first.  The directory that it is
in is its tail, and the root is in itself. -/
abbrev Path := List String

namespace Path

inductive Origin where
  | root
  | workingDirectory
deriving DecidableEq, Repr

export Origin (workingDirectory)

end Path

inductive PathStep where
  | here
  | up
  | into (name : String)
deriving DecidableEq, Repr

/-! ## Written paths -/

namespace PathText

def longestName : Nat := 255

def longestPath : Nat := 4095

def pieces (path : String) : List String := (path.toList.splitOn '/').map String.ofList

/-- A path with a slash in front starts at the root. -/
def origin (path : String) : Path.Origin :=
  if path.toList.head? = some '/' then .root else .workingDirectory

/-- An empty piece, as between slashes that follow each other, is no step. -/
def stepsOf (ps : List String) : List PathStep :=
  (ps.filter (· != "")).map fun piece =>
    if piece = "." then .here else if piece = ".." then .up else .into piece

/-- The steps that follow the start. -/
def steps (path : String) : List PathStep := stepsOf (pieces path)

def endsInSlash (path : String) : Bool := path.toList.getLast? == some '/'

def hasZero (path : String) : Bool := path.toList.contains '\x00'

def isTooLong (path : String) : Bool := longestPath < path.utf8ByteSize

/-- Drop what leads nowhere from the pieces of a path, the last one first: empty pieces, and `.` but
at the beginning. -/
def dropIdle : List String → List String
  | [] => []
  | piece :: rest =>
    if piece = "" || (piece = "." && !rest.isEmpty) then dropIdle rest else piece :: rest

/-- The written path without its last step.  A single step leaves where the path starts, and a path
without steps has the working directory for its parent, be it the root. -/
def parent (path : String) : String :=
  match dropIdle (pieces path).reverse with
  | [] => "."
  | _ :: lower =>
    match dropIdle lower with
    | [] => if origin path = .root then "/" else "."
    | above => "/".intercalate above.reverse

end PathText
end NumberWords
