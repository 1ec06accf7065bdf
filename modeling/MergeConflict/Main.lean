import MergeConflict.CommandLine
import MergeConflict.CommandLine.Input
import MergeConflict.Text.Utf8

/-!
The program at a terminal: dialogues are carried out on the files and with the user that are there.
-/

namespace MergeConflict.Main

def faultOf : IO.Error → FileFault
  | .noFileOrDirectory .. => .missing
  | .alreadyExists .. => .alreadyThere
  | e => .other (toString e)

/-- The result of an operation on files, or its fault. -/
def attempt {α : Type} (operation : IO α) : IO (Except FileFault α) := do
  try return .ok (← operation)
  catch e => return .error (faultOf e)

def readText (path : String) : IO (Except FileFault String) := do
  match ← attempt (IO.FS.readBinFile path) with
  | .error fault => return .error fault
  | .ok bytes =>
    match Text.Utf8.decode? bytes.toList with
    | some text => return .ok text
    | none => return .error .noText

def fullPath (path : String) : IO String := do
  try return toString (← IO.FS.realPath path)
  catch _ => return ""

/-- Shows a prompt with its choices and its default. -/
def showPrompt : Prompt → IO Unit
  | .text title default => IO.print (title ++ " [" ++ default ++ "]: ")
  | .number title default _ => IO.print (title ++ " [" ++ toString default ++ "]: ")
  | .pick title items default => do
    items.zipIdx.forM fun (item, index) => IO.println ("  " ++ toString index ++ ") " ++ item)
    IO.print (title ++ " [" ++ toString default ++ "]: ")
  | .confirm title default => IO.print (title ++ if default then " [Y/n] " else " [y/N] ")

def dropLineEnd (line : String) : String :=
  String.ofList (line.toList.filter fun c => c ≠ '\n' ∧ c ≠ '\x0d')

/-- Puts a prompt until it is answered; none at the end of the input. -/
partial def put (prompt : Prompt) : IO (Option prompt.Answer) := do
  showPrompt prompt
  (← IO.getStdout).flush
  let line ← (← IO.getStdin).getLine
  if line.isEmpty then return none
  match ((prompt.inputOf (dropLineEnd line)).reply? prompt).bind prompt.accept with
  | some answer => return some answer
  | none => put prompt

/-- Carries a dialogue out. -/
def carryOut {α : Type} : Dialogue α → IO (Except CommandFailure α)
  | .done value => return .ok value
  | .fail failure => return .error failure
  | .say text next => do
    IO.println text
    carryOut next
  | .ask prompt next => do
    match ← put prompt with
    | some answer => carryOut (next answer)
    | none => return .error .unanswered
  | .isThere path next => do carryOut (next ((← fullPath path) != ""))
  | .read path next => do carryOut (next (← readText path))
  | .write path content next => do
    carryOut (next (← attempt (IO.FS.writeFile path content)))
  | .makeFolder path next => do carryOut (next (← attempt (IO.FS.createDirAll path)))
  | .fullPath path next => do carryOut (next (← fullPath path))

/-- Takes turns until the sitting ends. -/
partial def sit (sitting : Sitting) : IO (Except CommandFailure Unit) := do
  match ← carryOut sitting.turn with
  | .error failure => return .error failure
  | .ok none => return .ok ()
  | .ok (some sitting) => sit sitting

def faultText : FileFault → String
  | .missing => "no such file or folder"
  | .isFolder => "is a folder"
  | .isFile => "is not a folder"
  | .alreadyThere => "is there already"
  | .noText => "is not valid UTF-8"
  | .other message => message

def failureText : CommandFailure → String
  | .file fault => faultText fault
  | .settings _ => "the settings file cannot be read"
  | .unanswered => "a prompt was left without an answer"
  | .notIncluded part => "built without " ++ part

def usage : String :=
  "Usage: mergebot [--data-dir <folder>] <command>\n\n" ++
    "  setup\n" ++
    "  status\n" ++
    "  blocks <file>\n" ++
    "  patches <file> --merged <merged>\n" ++
    "  resolve <file> [--fetch] [--output <file>] [--project <path>]" ++
    " [--target <branch>] [--source <branch>]\n" ++
    "  serve"

/-- Runs an invocation; answers the exit code. -/
def runInvocation (invocation : Invocation) : IO UInt32 := do
  let result ←
    match ← carryOut (CommandLine.start invocation) with
    | .error failure => pure (.error failure)
    | .ok none => pure (.ok ())
    | .ok (some sitting) => sit sitting
  match result with
  | .ok () => return 0
  | .error failure =>
    IO.eprintln ("Error: " ++ failureText failure)
    return 1

end MergeConflict.Main

open MergeConflict in
/-- Help asked for is a success, words that are no command line are not. -/
def main (words : List String) : IO UInt32 := do
  match Invocation.ofWords words with
  | .ok invocation => Main.runInvocation invocation
  | .error .helpRequested =>
    IO.println Main.usage
    return 0
  | .error _ =>
    IO.eprintln Main.usage
    return 2
