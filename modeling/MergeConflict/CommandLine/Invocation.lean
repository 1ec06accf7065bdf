import MergeConflict.CommandLine.Form

/-!
What the program can be asked to do, and the reading of a command line.
-/

namespace MergeConflict

/-- What a resolution is asked for beside its file. -/
structure ResolveOptions where
  /-- Whether the engines are asked for candidates. -/
  fetch : Bool
  /-- Where the result goes instead of into the file itself. -/
  output : Option String
  project : Option String
  targetBranch : Option String
  sourceBranch : Option String
deriving DecidableEq, Repr

inductive Command where
  | setup
  | status
  | blocks (file : String)
  | patches (file merged : String)
  | resolve (file : String) (options : ResolveOptions)
  | serve
deriving DecidableEq, Repr

structure Invocation where
  /-- The folder that holds the settings. -/
  dataFolder : String
  command : Command
deriving DecidableEq, Repr

namespace Command

/-- The names of the commands. -/
def names : List String := ["setup", "status", "blocks", "patches", "resolve", "serve"]

private def fileOperand : Argument := ⟨"file", .path⟩

/-- The form of the command of a name. -/
def form : String → Form
  | "blocks" => ⟨[], some fileOperand, []⟩
  | "patches" => ⟨[⟨"merged", .path⟩], some fileOperand, []⟩
  | "resolve" =>
    { options := [⟨"fetch", .flag⟩, ⟨"output", .path⟩, ⟨"project", .text⟩, ⟨"target", .text⟩,
        ⟨"source", .text⟩]
      operand := some fileOperand
      commands := [] }
  | _ => ⟨[], none, []⟩

private def required (reading : Reading) (name : String) : Except UsageError String :=
  match reading.value? name with
  | some value => .ok value
  | none => .error .missingArgument

/-- The command of a name with what was read by its form. -/
def ofReading (name : String) (reading : Reading) : Except UsageError Command :=
  match name with
  | "setup" => .ok setup
  | "status" => .ok status
  | "blocks" => return blocks (← required reading "file")
  | "patches" => return patches (← required reading "file") (← required reading "merged")
  | "resolve" =>
    return resolve (← required reading "file")
      { fetch := (reading.value? "fetch").isSome
        output := reading.value? "output"
        project := reading.value? "project"
        targetBranch := reading.value? "target"
        sourceBranch := reading.value? "source" }
  | "serve" => .ok serve
  | _ => .error .unknownCommand

/-- The command that is named and the words behind its name. -/
def ofWords (name : String) (words : List String) : Except UsageError Command := do
  ofReading name (← (form name).readAll words)

/-- The help on a command: at most one name may follow. -/
def helpFor : List String → UsageError
  | [] => .helpRequested
  | [name] =>
    if name = Form.helpName ∨ name ∈ names then .helpRequested else .unknownCommand
  | _ => .unknownCommand

end Command

namespace Invocation

/-- The form of the words before the command. -/
def form : Form := ⟨[⟨"data-dir", .path⟩], none, Command.names⟩

def defaultFolder : String := ".mergebot"

/-- The command line that words spell. A command's own words are judged before what stands open in
front of it. -/
def ofWords (words : List String) : Except UsageError Invocation := do
  match ← form.read .empty words with
  | (reading, some (name, rest)) =>
    if name = Form.helpName then .error (Command.helpFor rest)
    else
      let command ← Command.ofWords name rest
      let reading ← reading.settle
      return ⟨(reading.value? "data-dir").getD defaultFolder, command⟩
  | (reading, none) =>
    let reading ← reading.settle
    .error (if reading.settled.isEmpty then .nothingGiven else .missingCommand)

/-- Where the settings are kept. -/
def settingsPath (invocation : Invocation) : String :=
  if invocation.dataFolder.toList.getLast? = some '/' then
    invocation.dataFolder ++ "settings.json"
  else invocation.dataFolder ++ "/settings.json"

end Invocation

end MergeConflict
