import NumberWords.Descriptor.Decode
import NumberWords.Text
import NumberWords.Words

/-!
A session at the command line: commands that change the options, and numbers written under them.
-/

namespace NumberWords

inductive Command where
  | leave
  | blank
  | language (code : String)
  | alternative (name : Option String)
  | load (path : String)
  | toggleAnd
  | listLanguages
  | help
  | write (numeral : String)
deriving DecidableEq, Repr

namespace Command

def argument? (command : String) (line : List Char) : Option String :=
  if command.toList.isPrefixOf line then
    some (String.ofList (Text.trimChars (line.drop command.length)))
  else none

/-- The command of a line.  Blanks around it do not count, and what is no command is a number. -/
def ofLine (line : String) : Command :=
  let text := Text.trimChars line.toList
  let word := String.ofList text
  if word = "exit" then .leave
  else if word = "" then .blank
  else match argument? ":lang " text, argument? ":alt " text, argument? ":load " text with
    | some code, _, _ => .language code
    | none, some name, _ => .alternative (if name = "-" then none else some name)
    | none, none, some path => .load path
    | none, none, none =>
      if word = ":noand" then .toggleAnd
      else if word = ":langs" then .listLanguages
      else if word = ":help" then .help
      else .write word

end Command

inductive Message where
  | words (text : String)
  | rejected (numeral : String)
  | failed (error : Error)
  | noAnd (on : Bool)
  | languages
  | help
  | greeting
  | prompt (selection : Selection) (alternative : Option String)

namespace Message

def coloured (colour : Nat) (text : String) : String :=
  "\x1b[38;5;" ++ toString colour ++ "m" ++ text ++ "\x1b[39m\n"

def red : Nat := 9

def green : Nat := 10

def yellow : Nat := 11

def isFault : Message → Bool
  | .rejected _ => true
  | .failed _ => true
  | _ => false

def text : Message → String
  | .words text => coloured green text
  | .rejected numeral => coloured yellow ("'" ++ numeral ++ "' is not a non-negative number")
  | .failed e => coloured red e.message
  | .noAnd on => "no-and is now " ++ (if on then "true" else "false") ++ "\n"
  | .languages => " ".intercalate (Language.all.map Language.code) ++ "\n"
  | .help =>
    "  <number>        write the number out\n"
      ++ "  :lang <code>    switch built-in language (see :langs)\n"
      ++ "  :alt <name|->   select or clear an alternative base\n"
      ++ "  :noand          toggle the unit separator\n"
      ++ "  :load <path>    use a custom JSON language descriptor\n"
      ++ "  exit            quit\n"
  | .greeting =>
    "Written Number. Enter a number, ':help' for commands, 'exit' to quit.\n"
      ++ "---------------------------------------------------------------\n"
  | .prompt selection alternative =>
    let language := match selection with
      | .builtIn l => l.code
      | .custom _ => "custom"
    let suffix := match alternative with
      | some name => "/" ++ name
      | none => ""
    "\n[" ++ language ++ suffix ++ "] > "

end Message

namespace Options

/-- The options at the start.  A code that names no language is ignored. -/
def initial (code : Option String) : Options :=
  { selection := .builtIn ((code.bind Language.ofCode?).getD default) }

def prompt (o : Options) : Message := .prompt o.selection o.alternative

/-- What is said to a numeral.  One without words counts as rejected. -/
def answer (o : Options) (numeral : String) : Message :=
  match o.write (.text numeral) with
  | .ok words => if words = "" then .rejected numeral else .words words
  | .error e => .failed e

/-- Obey a command; `load` reads a descriptor.  A new language comes without an alternative base. -/
def obey (load : String → Except Error Descriptor) (o : Options) : Command → Options × List Message
  | .leave => (o, [])
  | .blank => (o, [])
  | .language code =>
    match Language.ofCode? code with
    | some l => ({ o with selection := .builtIn l, alternative := none }, [])
    | none => (o, [.failed (.unknownLanguage code)])
  | .alternative name => ({ o with alternative := name }, [])
  | .load path =>
    match load path with
    | .ok d => ({ o with selection := .custom d, alternative := none }, [])
    | .error e => (o, [.failed e])
  | .toggleAnd => ({ o with noAnd := !o.noAnd }, [.noAnd (!o.noAnd)])
  | .listLanguages => (o, [.languages])
  | .help => (o, [.help])
  | .write numeral => (o, [o.answer numeral])

/-- Obey lines up to the one that leaves, with a prompt after each. -/
def converse (load : String → Except Error Descriptor) (o : Options) :
    List String → Options × List Message
  | [] => (o, [])
  | line :: rest =>
    match Command.ofLine line with
    | .leave => (o, [])
    | command =>
      let (o, said) := o.obey load command
      let (final, later) := o.converse load rest
      (final, said ++ o.prompt :: later)

end Options

namespace Session

/-- The lines of a text.  The last one may lack its end. -/
def lines (text : String) : List String :=
  let pieces := text.toList.splitOn '\n'
  let pieces := if pieces.getLast? = some [] then pieces.dropLast else pieces
  pieces.map String.ofList

/-- All that is said: to the arguments if there are any, and otherwise to the lines of the input. -/
def run (load : String → Except Error Descriptor) (code : Option String) (arguments : List String)
    (input : List String) : List Message :=
  let o := Options.initial code
  if arguments.isEmpty then .greeting :: o.prompt :: (o.converse load input).2
  else arguments.map o.answer

def stream (fault : Bool) (messages : List Message) : String :=
  String.join ((messages.filter (·.isFault == fault)).map Message.text)

end Session
end NumberWords
