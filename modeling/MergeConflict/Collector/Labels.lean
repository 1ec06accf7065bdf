import MergeConflict.Engine.Failure

/-!
The label collector: has every block classified and turns each label into a candidate.

Each known label of a block becomes a task of its own, since the combiner may have to be asked
about it. The tasks finish in any order; their candidates are put in as they finish. A label that
is unknown, a block that does not exist and a task that fails leave a warning instead.
-/

namespace MergeConflict

/-- How far a task has come. -/
inductive LabelWork where
  | done (content : Except Failure String)
  /-- About to ask the combiner. -/
  | asking (request : CombineRequest)
  | waiting
deriving Repr

structure LabelTask where
  /-- Tells the tasks of a run apart. -/
  id : Nat
  block : Nat
  label : Label
  confidence : Binary64
  work : LabelWork
deriving Repr

inductive LabelRun where
  | asking
  | waiting
  /-- Has an answer that the session does not know of yet. -/
  | holding (answer : Except Failure (List Prediction))
  /-- Makes tasks of the predictions, one after the other. -/
  | sorting (rest : List Prediction) (tasks : List LabelTask)
  | joining (tasks : List LabelTask) (count : Nat)
  /-- Has the result of a task that the session does not know of yet. -/
  | joined (block : Nat) (result : Except Failure LabelCandidate) (tasks : List LabelTask)
    (count : Nat)
  | ended (result : Except EngineError Nat)

namespace LabelTask

def noCombiner : Failure := ⟨"no combiner configured", []⟩

/-- A task that has just been made. -/
def begin (hasCombiner : Bool) (id block : Nat) (label : Label) (confidence : Binary64)
    (sides : Sides) : LabelTask where
  id
  block
  label
  confidence
  work :=
    match label.apply sides with
    | .resolved content => .done (.ok content)
    | .needsCombiner request => if hasCombiner then .asking request else .done (.error noCombiner)

def candidate (task : LabelTask) (content : String) : LabelCandidate :=
  ⟨task.label, task.confidence, content⟩

end LabelTask

namespace LabelRun

/-- Makes a task of a prediction, or a warning. -/
def sort (hasCombiner : Bool) (session : Session) (prediction : Prediction)
    (tasks : List LabelTask) : List LabelTask × Session :=
  let block := numberOf prediction.index
  match Label.ofCode prediction.label with
  | .error e =>
    (tasks, session.notify
      (.warning .classifier ("block " ++ toString block ++ ": " ++ e.message)))
  | .ok label =>
    match session.buffer.sides block with
    | .error e => (tasks, session.notify (.warning .classifier e.message))
    | .ok sides =>
      (tasks ++ [.begin hasCombiner tasks.length block label prediction.confidence sides], session)

/-- The next move without an event from outside; a run that is cancelled ends wherever it would
wait. -/
def advance (hasCombiner : Bool) (cancelled : Bool) (session : Session) :
    LabelRun → Option (LabelRun × Session)
  | asking => some (if cancelled then ended (.error .cancelled) else waiting, session)
  | waiting => if cancelled then some (ended (.error .cancelled), session) else none
  | holding (.error failure) => some (ended (.error (.failed failure)), session)
  | holding (.ok predictions) => some (sorting predictions [], session.commit .labelsCleared)
  | sorting [] tasks => some (joining tasks 0, session)
  | sorting (prediction :: rest) tasks =>
    let (tasks, session) := sort hasCombiner session prediction tasks
    some (sorting rest tasks, session)
  | joining tasks count =>
    if cancelled then some (ended (.error .cancelled), session)
    else if tasks.isEmpty then some (ended (.ok count), session)
    else none
  | joined block (.ok candidate) tasks count =>
    some (joining tasks (count + 1), session.commit (.label block candidate))
  | joined block (.error failure) tasks count =>
    some (joining tasks count, session.notify
      (.warning .classifier ("block " ++ toString block ++ ": " ++ failure.full)))
  | ended _ => none

/-- The request that goes out with the next move. -/
def request? (cancelled : Bool) (session : Session) : LabelRun → Option LabelRequest
  | asking => if cancelled then none else some session.file.labelRequest
  | _ => none

/-- The classifier answers. -/
def receive (answer : Except Failure (List Prediction)) : LabelRun → Option LabelRun
  | waiting => some (holding answer)
  | _ => none

/-- The tasks still to be joined. -/
def tasks : LabelRun → List LabelTask
  | joining tasks _ => tasks
  | _ => []

/-- A task asks the combiner. -/
def start (id : Nat) : LabelRun → Option LabelRun
  | joining tasks count =>
    some (joining
      (tasks.map fun task => if task.id = id then { task with work := .waiting } else task) count)
  | _ => none

/-- A task ends with a content; one that broke down ends with nothing and is forgotten. -/
def join (id : Nat) (content : Option (Except Failure String)) : LabelRun → Option LabelRun
  | joining tasks count =>
    match tasks.find? (·.id = id) with
    | none => none
    | some task =>
      let others := tasks.filter (·.id ≠ id)
      match content with
      | none => some (joining others count)
      | some content => some (joined task.block (content.map task.candidate) others count)
  | _ => none

def result? : LabelRun → Option (Except EngineError Nat)
  | ended result => some result
  | _ => none

end LabelRun

end MergeConflict
