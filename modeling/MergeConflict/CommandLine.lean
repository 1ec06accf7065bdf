import MergeConflict.CommandLine.Listing
import MergeConflict.CommandLine.Setup
import MergeConflict.CommandLine.Sitting

/-!
The commands of the program.

`start` runs a command. All of them end there but the resolving of a file, which goes on turn by
turn.
-/

namespace MergeConflict.CommandLine

/-- Runs a command that leaves nothing to do. -/
private def only (command : Dialogue Unit) : Dialogue (Option Sitting) := do
  command
  return none

/-- Runs the command of an invocation; answers the sitting that it begins, if it begins one. -/
def start (invocation : Invocation) : Dialogue (Option Sitting) :=
  match invocation.command with
  | .setup => only (setup invocation)
  | .status => only (status invocation)
  | .blocks file => only (blocks file)
  | .patches file merged => only (patches invocation file merged)
  | .resolve file options => some <$> beginSitting invocation file options
  | .serve => .fail (.notIncluded "the HTTP interface")

end MergeConflict.CommandLine
