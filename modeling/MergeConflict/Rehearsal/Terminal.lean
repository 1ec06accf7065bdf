import MergeConflict.CommandLine
import MergeConflict.CommandLine.Input
import MergeConflict.Rehearsal.Disk

/-!
A terminal at which everything the user enters is written down in advance.

`play` runs a command line against such inputs and a disk in memory, and keeps what was printed and
asked. Each prompt uses up one input; one that does not fit its prompt ends the run, and so does a
prompt for which none is left.
-/

namespace MergeConflict

/-- A prompt that was put, and the reply if a fitting one came. -/
structure Asked where
  prompt : Prompt
  reply : Option prompt.Reply

structure Terminal where
  disk : Disk
  /-- What the user will enter. -/
  inputs : List Input
  asked : List Asked
  /-- The texts printed, each ended by a newline. -/
  printed : List String

namespace Terminal

variable {α : Type}

/-- Puts a prompt until it is answered. -/
def put (prompt : Prompt) (asked : List Asked) :
    List Input → Option prompt.Answer × List Input × List Asked
  | [] => (none, [], asked ++ [⟨prompt, none⟩])
  | input :: rest =>
    match input.reply? prompt with
    | none => (none, rest, asked ++ [⟨prompt, none⟩])
    | some reply =>
      let asked := asked ++ [⟨prompt, some reply⟩]
      match prompt.accept reply with
      | some answer => (some answer, rest, asked)
      | none => put prompt asked rest

/-- The disk after an operation, or as it was if the operation fails. -/
private def after (terminal : Terminal) (result : Except FileFault Disk) : Terminal :=
  match result with
  | .ok disk => { terminal with disk }
  | .error _ => terminal

private def outcome (result : Except FileFault Disk) : Except FileFault Unit :=
  result.map fun _ => ()

/-- Runs a dialogue to its end. -/
def run (terminal : Terminal) : Dialogue α → Except CommandFailure α × Terminal
  | .done value => (.ok value, terminal)
  | .fail failure => (.error failure, terminal)
  | .say text next => run { terminal with printed := terminal.printed ++ [text] } next
  | .ask prompt next =>
    match put prompt terminal.asked terminal.inputs with
    | (some answer, inputs, asked) => run { terminal with inputs, asked } (next answer)
    | (none, inputs, asked) => (.error .unanswered, { terminal with inputs, asked })
  | .isThere path next => run terminal (next (terminal.disk.isThere path))
  | .read path next => run terminal (next (terminal.disk.readText path))
  | .write path content next =>
    let result := terminal.disk.writeText path content
    run (terminal.after result) (next (outcome result))
  | .makeFolder path next =>
    let result := terminal.disk.makeFolders path
    run (terminal.after result) (next (outcome result))
  | .fullPath path next => run terminal (next (terminal.disk.fullPath path))

/-- Takes turns in a sitting, `count` at most. -/
def sit (terminal : Terminal) (sitting : Sitting) :
    Nat → Except CommandFailure Unit × Terminal
  | 0 => (.error .unanswered, terminal)
  | count + 1 =>
    match terminal.run sitting.turn with
    | (.error failure, terminal) => (.error failure, terminal)
    | (.ok none, terminal) => (.ok (), terminal)
    | (.ok (some sitting), terminal) => terminal.sit sitting count

/-- Runs a command to its end. A turn uses up an input, so there are no more turns than inputs, and
one more that finds none. -/
def play (terminal : Terminal) (invocation : Invocation) :
    Except CommandFailure Unit × Terminal :=
  match terminal.run (CommandLine.start invocation) with
  | (.error failure, terminal) => (.error failure, terminal)
  | (.ok none, terminal) => (.ok (), terminal)
  | (.ok (some sitting), terminal) => terminal.sit sitting (terminal.inputs.length + 1)

/-- Everything printed. -/
def output (terminal : Terminal) : String :=
  Text.terminateLines terminal.printed

end Terminal

end MergeConflict
