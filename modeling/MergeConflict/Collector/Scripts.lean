import MergeConflict.Engine.Failure

/-!
The edit-script collector: asks about every block, one request each.

A run opens a batch of its own, and its results carry the batch's id, so that the pool can tell
them from those of another run. The batch is finished also when the run is cancelled.
-/

namespace MergeConflict

structure ScriptTask where
  block : Nat
  request : ScriptRequest
  /-- The request is out. -/
  isAsked : Bool
deriving DecidableEq, Repr

inductive ScriptRun where
  | opening
  | joining (batch : UInt64) (tasks : List ScriptTask) (count : Nat)
  /-- Has the result of a task that the session does not know of yet. -/
  | joined (batch : UInt64) (block : Nat) (result : Except Failure ScriptOutcome)
    (tasks : List ScriptTask) (count : Nat)
  | closing (batch : UInt64) (result : Except EngineError Nat)
  | ended (result : Except EngineError Nat)

namespace ScriptRun

/-- A task for every block that can be asked about. -/
def tasksOf (buffer : Buffer) : List ScriptTask :=
  (List.range buffer.blocks.length).filterMap fun index =>
    match buffer.sides (index + 1) with
    | .ok sides => some ⟨index + 1, .ofSides sides, false⟩
    | .error _ => none

/-- The next move without an event from outside; a run that is cancelled closes its batch. -/
def advance (cancelled : Bool) (session : Session) : ScriptRun → Option (ScriptRun × Session)
  | opening =>
    let batch := session.buffer.pool.batch + 1
    let session := session.commit (.batchStarted batch)
    some (joining batch (tasksOf session.buffer) 0, session)
  | joining batch tasks count =>
    if cancelled then some (closing batch (.error .cancelled), session)
    else if tasks.isEmpty then some (closing batch (.ok count), session)
    else none
  | joined batch block (.ok outcome) tasks count =>
    some (joining batch tasks (count + 1), session.commit (.script batch block outcome))
  | joined batch block (.error failure) tasks count =>
    some (joining batch tasks count, session.notify
      (.warning .editScript ("block " ++ toString block ++ ": " ++ failure.full)))
  | closing batch result => some (ended result, session.commit (.batchFinished batch))
  | ended _ => none

/-- The tasks still to be joined. -/
def tasks : ScriptRun → List ScriptTask
  | joining _ tasks _ => tasks
  | _ => []

/-- The task of a block asks the engine. -/
def start (block : Nat) : ScriptRun → Option ScriptRun
  | joining batch tasks count =>
    some (joining batch
      (tasks.map fun task => if task.block = block then { task with isAsked := true } else task)
      count)
  | _ => none

/-- The task of a block ends with an outcome; one that broke down ends with nothing and is
forgotten. -/
def join (block : Nat) (outcome : Option (Except Failure ScriptOutcome)) :
    ScriptRun → Option ScriptRun
  | joining batch tasks count =>
    match tasks.find? (·.block = block) with
    | none => none
    | some _ =>
      let others := tasks.filter (·.block ≠ block)
      match outcome with
      | none => some (joining batch others count)
      | some outcome => some (joined batch block outcome others count)
  | _ => none

def result? : ScriptRun → Option (Except EngineError Nat)
  | ended result => some result
  | _ => none

end ScriptRun

end MergeConflict
