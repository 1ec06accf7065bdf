import MergeConflict.CommandLine.SettingsFile
import MergeConflict.EngineSet
import MergeConflict.Menu

/-!
Resolving a file block by block at a terminal.

A sitting goes in turns. A turn shows how far the session has come, asks for an action and carries
it out. What engines answer goes into the session between two turns.
-/

namespace MergeConflict

/-- What the user can do in a turn. -/
inductive Action where
  | resolve
  | undo
  | redo
  | reset
  | display
  | write
  | quit
deriving DecidableEq, Repr

namespace Action

def title : Action → String
  | resolve => "Resolve a block"
  | undo => "Undo"
  | redo => "Redo"
  | reset => "Reset to original"
  | display => "Show buffer"
  | write => "Write and quit"
  | quit => "Quit without writing"

/-- The actions that make sense now. -/
def available (snapshot : Snapshot) : List Action :=
  [resolve] ++ (if snapshot.canUndo then [undo] else []) ++
    (if snapshot.canRedo then [redo] else []) ++ [reset, display, write, quit]

end Action

/-- A user resolving a file. -/
structure Sitting where
  session : Session
  /-- Where the result is written. -/
  destination : String
  /-- How many of the session's notices the user has been shown. -/
  shown : Nat

namespace Sitting

def statusTitle : HeuristicStatus → String
  | .idle => "Idle"
  | .pending => "Pending"
  | .ready => "Ready"
  | .timedOut => "TimedOut"
  | .failed => "Failed"

/-- How far the session has come. -/
def progress (snapshot : Snapshot) : String :=
  toString snapshot.outstanding.length ++ " of " ++ toString snapshot.blocks.length ++
    " block(s) outstanding, " ++ toString snapshot.patches.length ++
    " semantic patch(es), heuristic " ++ statusTitle snapshot.status

/-- The blocks that are still in the buffer, with the place of each. -/
def openViews (snapshot : Snapshot) : List (BlockView × Interval) :=
  snapshot.blocks.filterMap fun view => view.located.map (view, ·)

def viewLabel (view : BlockView × Interval) : String :=
  "#" ++ toString view.1.number ++ " at line " ++ toString (view.2.first + 1) ++
    " (" ++ toString view.1.candidates.length ++ " candidate(s))"

/-- Puts a choice into a block and tells how that went. -/
def applyChoice (session : Session) (request : Request) : Session × String :=
  match session.buffer.apply request with
  | (buffer, .ok applied) =>
    ({ session with buffer },
      "Applied " ++ request.choice.title ++ " to block #" ++ toString request.block ++
        " (" ++ toString applied.transition.outstanding ++ " outstanding)")
  | (buffer, .error e) => ({ session with buffer }, "Could not apply: " ++ e.message)

/-- Asks for a block and for what to put in its place, and puts it there. -/
def resolveBlock (session : Session) : Dialogue Session := do
  let snapshot := session.snapshot
  match openViews snapshot with
  | [] =>
    .print "All blocks are resolved."
    return session
  | views =>
    let (view, _) ← .choose "Block" views viewLabel 0
    let entry ← .choose "Resolution" (Menu.entries view snapshot.patches) MenuEntry.label 0
    let (session, outcome) := applyChoice session ⟨view.number, entry.choice⟩
    .print outcome
    return session

/-- Writes the buffer, unless conflicts remain and the user thinks better of it; answers whether it
was written. -/
def writeOut (sitting : Sitting) (snapshot : Snapshot) : Dialogue Bool := do
  let agreed ←
    if snapshot.outstanding.isEmpty then pure true
    else .askWhether "Conflicts remain. Write anyway?" false
  if agreed then
    .writeText sitting.destination snapshot.content
    .print ("Wrote " ++ sitting.destination)
  return agreed

/-- The sitting after a move of its buffer. -/
def withBuffer (sitting : Sitting) (move : Buffer → Buffer) : Sitting :=
  { sitting with session := { sitting.session with buffer := move sitting.session.buffer } }

/-- Carries out an action; answers the sitting that goes on, or none at its end. -/
def act (sitting : Sitting) (snapshot : Snapshot) : Action → Dialogue (Option Sitting)
  | .resolve => do
    return some { sitting with session := ← resolveBlock sitting.session }
  | .undo => return some (sitting.withBuffer (·.undo.1))
  | .redo => return some (sitting.withBuffer (·.redo.1))
  | .reset => return some (sitting.withBuffer (·.reset.1))
  | .display => do
    .printAll ["", snapshot.content]
    return some sitting
  | .write => do
    if ← sitting.writeOut snapshot then return none else return some sitting
  | .quit => return none

/-- One turn. -/
def turn (sitting : Sitting) : Dialogue (Option Sitting) := do
  let snapshot := sitting.session.snapshot
  .printAll ((snapshot.notices.drop sitting.shown).map fun notice => "! " ++ notice.text)
  .printAll ["", progress snapshot]
  let sitting := { sitting with shown := snapshot.notices.length }
  let action ← .choose "Action" (Action.available snapshot) Action.title 0
  sitting.act snapshot action

end Sitting

namespace CommandLine

/-- The settings of a project with what the command line says instead. -/
def overridden (project : ProjectSettings) (options : ResolveOptions) : ProjectSettings where
  path := options.project.getD project.path
  targetBranch := options.targetBranch.getD project.targetBranch
  sourceBranch := options.sourceBranch.getD project.sourceBranch

/-- Loads a file to be resolved. -/
def beginSitting (invocation : Invocation) (file : String) (options : ResolveOptions) :
    Dialogue Sitting := do
  let settings ← Settings.readOrDefault invocation.settingsPath
  let project := overridden settings.project options
  let content ← .readText file
  let fullPath ← .fullPath file .done
  let context :=
    { FileContext.blank with
      project := project.path
      targetBranch := project.targetBranch
      sourceBranch := project.sourceBranch
      path := file
      fullPath }
  if options.fetch then
    .print ("Fetching candidates from: " ++ (EngineSet.ofSettings settings.engines).quotedNames)
  return {
    session := Session.ofContent context content settings.diff.algorithm
    destination := options.output.getD file
    shown := 0 }

end CommandLine

end MergeConflict
