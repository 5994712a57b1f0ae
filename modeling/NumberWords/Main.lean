import NumberWords.Files.Store
import NumberWords.Session

/-!
The command line: arguments are written out and end the program; without any, lines are read from
the standard input.
-/

namespace NumberWords
namespace CommandLine

def languageVariable : String := "WRITTEN_NUMBER_LANG"

def say (m : Message) : IO Unit := do
  if m.isFault then
    (← IO.getStderr).putStr m.text
  else
    let out ← IO.getStdout
    out.putStr m.text
    out.flush

def faultOf : IO.Error → FileFault
  | .noFileOrDirectory .. => .notFound
  | .inappropriateType (some _) .. => .notDirectory
  | .inappropriateType none .. => .isDirectory
  | .invalidArgument .. => .nameTooLong
  | e => .other (toString e)

def loadFile (path : String) : IO (Except Error Descriptor) := do
  if PathText.hasZero path then return .error (.file .zeroInPath)
  try
    return Descriptor.ofBytes (← IO.FS.readBinFile path)
  catch e =>
    return .error (.file (faultOf e))

partial def loop (input : IO.FS.Stream) (o : Options) : IO Unit := do
  let line ← input.getLine
  if line.isEmpty then return
  match Command.ofLine line with
  | .leave => return
  | command =>
    let loaded ← match command with
      | .load path => loadFile path
      | _ => pure (.error (.file .notFound))
    let (o, said) := o.obey (fun _ => loaded) command
    said.forM say
    say o.prompt
    loop input o

def run (arguments : List String) : IO Unit := do
  let o := Options.initial (← IO.getEnv languageVariable)
  if arguments.isEmpty then
    say .greeting
    say o.prompt
    loop (← IO.getStdin) o
  else
    arguments.forM fun a => say (o.answer a)

end CommandLine
end NumberWords

def main (arguments : List String) : IO Unit := NumberWords.CommandLine.run arguments
