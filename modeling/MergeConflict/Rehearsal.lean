import MergeConflict.Collector
import MergeConflict.Rehearsal.Stubs

/-!
Collectors at work with engines that answer from cues.

The clock stands still while anyone is ready, and then jumps to the next alarm. Whoever is ready
waits in a line. The collectors take their turn together, each moving as far as it can; the one
that begins a turn is the one behind the one that began the turn before. A task takes turns of its
own from the moment at which its collector makes it, and wakes the collectors when it ends.
-/

namespace MergeConflict

/-- Someone who takes turns. -/
inductive Part where
  | collectors
  /-- A task of the label collector, by its id. -/
  | labelTask (id : Nat)
  /-- A task of the edit-script collector, by its block. -/
  | scriptTask (block : Nat)
deriving DecidableEq, Repr

/-- What a set of collectors has asked for: calls, and tasks that have ended since the collectors
last looked, in the order in which they ended. -/
structure Calls where
  heuristic : Option (Call Report)
  /-- The end of the heuristic collector's rest. -/
  restsUntil : Nat
  labels : Option (Call (List Prediction))
  /-- By task. -/
  combiner : List (Nat × Call String)
  endedLabels : List (Nat × Option (Except Failure String))
  /-- By block. -/
  scripts : List (Nat × Call ScriptOutcome)
  endedScripts : List (Nat × Option (Except Failure ScriptOutcome))
  history : Option (Call (List HistoryRecord))

def Calls.empty : Calls := ⟨none, 0, none, [], [], [], [], none⟩

structure Rehearsal where
  policy : PollingSettings
  now : Nat
  isCancelled : Bool
  session : Session
  stubs : Stubs
  runs : Collectors
  calls : Calls
  /-- How many turns the collectors have had. -/
  turns : Nat
  /-- Whoever is ready, the next one first. -/
  ready : List Part
  /-- When somebody is to be woken, in the order in which they lay down. -/
  alarms : List (Nat × Part)
  /-- A collector took all of them down. -/
  hasCrashed : Bool

namespace Rehearsal

/-- Puts somebody at the end of the line who does not stand in it. -/
def wake (r : Rehearsal) (part : Part) : Rehearsal :=
  if r.ready.contains part then r else { r with ready := r.ready ++ [part] }

/-- Has somebody woken at a moment to come. -/
def wakeAt (r : Rehearsal) (part : Part) (moment : Option Nat) : Rehearsal :=
  match moment with
  | some moment =>
    if moment ≤ r.now then r else { r with alarms := r.alarms ++ [(moment, part)] }
  | none => r

/-! ## Moves of the collectors -/

private def withHeuristic (r : Rehearsal) (run : HeuristicRun) : Rehearsal :=
  { r with runs := { r.runs with heuristic := some run } }

private def withLabels (r : Rehearsal) (run : LabelRun) : Rehearsal :=
  { r with runs := { r.runs with labels := some run } }

private def withScripts (r : Rehearsal) (run : ScriptRun) : Rehearsal :=
  { r with runs := { r.runs with scripts := some run } }

private def withHistory (r : Rehearsal) (run : HistoryRun) : Rehearsal :=
  { r with runs := { r.runs with history := some run } }

/-- Hands the answer of a call that is due to whoever asked. -/
def deliver {α : Type} (r : Rehearsal) (call : Option (Call α))
    (receive : Except Failure α → Option Rehearsal) : Option Rehearsal :=
  match call with
  | none => none
  | some call =>
    if call.isDue r.now then
      match call.answer with
      | some answer => receive answer
      | none => some { r with hasCrashed := true }
    else none

/-- Makes the call that goes out with a move of the heuristic collector. -/
def callHeuristic (r : Rehearsal) (run : HeuristicRun) : Rehearsal :=
  match run.request? r.isCancelled r.session with
  | none => r
  | some request =>
    let (call, stubs) := r.stubs.askHeuristic r.now request
    { r with stubs, calls := { r.calls with heuristic := some call } }.wakeAt .collectors call.due

def moveHeuristic (r : Rehearsal) : Option Rehearsal :=
  match r.runs.heuristic with
  | none => none
  | some run =>
    match run.advance r.policy r.isCancelled r.session with
    | some (next, session) =>
      let r := { r.callHeuristic run with session }
      let r :=
        match next.interval? with
        | some interval =>
          let moment := r.now + interval
          { r with calls := { r.calls with restsUntil := moment } }.wakeAt .collectors moment
        | none => r
      some (r.withHeuristic next)
    | none =>
      match run with
      | .waiting _ =>
        r.deliver r.calls.heuristic fun answer => (run.receive answer).map r.withHeuristic
      | .resting .. =>
        if r.calls.restsUntil ≤ r.now then run.wake.map r.withHeuristic else none
      | _ => none

/-- Makes the call that goes out with a move of the label collector. -/
def callClassifier (r : Rehearsal) (run : LabelRun) : Rehearsal :=
  match run.request? r.isCancelled r.session with
  | none => r
  | some request =>
    let (call, stubs) := r.stubs.askClassifier r.now request
    { r with stubs, calls := { r.calls with labels := some call } }.wakeAt .collectors call.due

/-- The tasks that a move of the label collector sets off. -/
def newLabelTasks : LabelRun → List Part
  | .sorting [] tasks => tasks.map fun task => .labelTask task.id
  | _ => []

def moveLabels (r : Rehearsal) : Option Rehearsal :=
  match r.runs.labels with
  | none => none
  | some run =>
    match run.advance (r.stubs.has .combiner) r.isCancelled r.session with
    | some (next, session) =>
      let r := { r.callClassifier run with session }.withLabels next
      some ((newLabelTasks run).foldl wake r)
    | none =>
      match run, r.calls.endedLabels with
      | .waiting, _ => r.deliver r.calls.labels fun answer => (run.receive answer).map r.withLabels
      | _, (id, content) :: rest =>
        (run.join id content).map { r with calls := { r.calls with endedLabels := rest } }.withLabels
      | _, [] => none

/-- The tasks that stand behind a move of the edit-script collector which begins its batch. -/
def newScriptTasks : ScriptRun → ScriptRun → List Part
  | .opening, .joining _ tasks _ => tasks.map fun task => .scriptTask task.block
  | _, _ => []

def moveScripts (r : Rehearsal) : Option Rehearsal :=
  match r.runs.scripts with
  | none => none
  | some run =>
    match run.advance r.isCancelled r.session with
    | some (next, session) =>
      some ((newScriptTasks run next).foldl wake ({ r with session }.withScripts next))
    | none =>
      match r.calls.endedScripts with
      | (block, outcome) :: rest =>
        (run.join block outcome).map
          { r with calls := { r.calls with endedScripts := rest } }.withScripts
      | [] => none

/-- Makes the call that goes out with a move of the history collector. -/
def callHistory (r : Rehearsal) (run : HistoryRun) : Rehearsal :=
  match run.query? r.isCancelled r.session with
  | none => r
  | some query =>
    let (call, stubs) := r.stubs.askHistory r.now query
    { r with stubs, calls := { r.calls with history := some call } }.wakeAt .collectors call.due

def moveHistory (r : Rehearsal) : Option Rehearsal :=
  match r.runs.history with
  | none => none
  | some run =>
    match run.advance r.isCancelled r.session with
    | some (next, session) => some ({ r.callHistory run with session }.withHistory next)
    | none =>
      match run with
      | .waiting => r.deliver r.calls.history fun answer => (run.receive answer).map r.withHistory
      | _ => none

/-- Makes moves of a kind while there are any, `fuel` at most. -/
def exhaust (move : Rehearsal → Option Rehearsal) : Nat → Rehearsal → Rehearsal
  | 0, r => r
  | fuel + 1, r =>
    if r.hasCrashed then r
    else
      match move r with
      | some next => exhaust move fuel next
      | none => r

/-- The collectors, in the order of a turn that so many turns have gone before. -/
def order (turns : Nat) : List (Rehearsal → Option Rehearsal) :=
  let moves := [moveHeuristic, moveLabels, moveScripts, moveHistory]
  moves.rotateLeft (turns % moves.length)

/-! ## Turns -/

/-- The task of the label collector that has an id. -/
def labelTask? (r : Rehearsal) (id : Nat) : Option (LabelRun × LabelTask) := do
  let run ← r.runs.labels
  let task ← run.tasks.find? (·.id = id)
  return (run, task)

def endLabelTask (r : Rehearsal) (id : Nat) (content : Option (Except Failure String)) :
    Rehearsal :=
  { r with calls := { r.calls with
      endedLabels := r.calls.endedLabels ++ [(id, content)] } }.wake .collectors

/-- A task makes its call, or ends with the answer to it. -/
def turnLabelTask (r : Rehearsal) (id : Nat) : Rehearsal :=
  match r.labelTask? id with
  | none => r
  | some (run, task) =>
    match task.work with
    | .done content => r.endLabelTask id (some content)
    | .asking request =>
      let (call, stubs) := r.stubs.askCombiner r.now request
      let r := { r with stubs, calls := { r.calls with
        combiner := (id, call) :: r.calls.combiner.filter (·.1 ≠ id) } }
      let r := (run.start id).elim r r.withLabels
      if call.isDue r.now then r.endLabelTask id call.answer
      else r.wakeAt (.labelTask id) call.due
    | .waiting => (r.calls.combiner.lookup id).elim r fun call =>
      if call.isDue r.now then r.endLabelTask id call.answer else r

/-- The task of the edit-script collector for a block. -/
def scriptTask? (r : Rehearsal) (block : Nat) : Option (ScriptRun × ScriptTask) := do
  let run ← r.runs.scripts
  let task ← run.tasks.find? (·.block = block)
  return (run, task)

def endScriptTask (r : Rehearsal) (block : Nat) (outcome : Option (Except Failure ScriptOutcome)) :
    Rehearsal :=
  { r with calls := { r.calls with
      endedScripts := r.calls.endedScripts ++ [(block, outcome)] } }.wake .collectors

/-- A task makes its call, or ends with the answer to it. -/
def turnScriptTask (r : Rehearsal) (block : Nat) : Rehearsal :=
  match r.scriptTask? block with
  | none => r
  | some (run, task) =>
    if task.isAsked then
      (r.calls.scripts.lookup block).elim r fun call =>
        if call.isDue r.now then r.endScriptTask block call.answer else r
    else
      let (call, stubs) := r.stubs.askScript r.now task.request
      let r := { r with stubs, calls := { r.calls with
        scripts := (block, call) :: r.calls.scripts.filter (·.1 ≠ block) } }
      let r := (run.start block).elim r r.withScripts
      if call.isDue r.now then r.endScriptTask block call.answer
      else r.wakeAt (.scriptTask block) call.due

/-- Somebody takes a turn; a collector makes `fuel` moves at most. -/
def turn (fuel : Nat) (r : Rehearsal) : Part → Rehearsal
  | .collectors =>
    let r := (order r.turns).foldl (fun r move => exhaust move fuel r) r
    { r with turns := r.turns + 1 }
  | .labelTask id => r.turnLabelTask id
  | .scriptTask block => r.turnScriptTask block

/-! ## The clock -/

/-- Moves the clock, and wakes those whose alarms ring. -/
def jump (r : Rehearsal) (now : Nat) : Rehearsal :=
  (r.alarms.filter (·.1 ≤ now)).foldl (fun r alarm => r.wake alarm.2)
    { r with now, alarms := r.alarms.filter fun alarm => decide (now < alarm.1) }

/-- Nothing of the collectors is left to do. -/
def isOver (r : Rehearsal) : Bool :=
  r.hasCrashed || r.runs.hasEnded

/-- Cancels the collectors, who notice behind everybody who is ready. -/
def cancel (r : Rehearsal) : Rehearsal :=
  { r with isCancelled := true }.wake .collectors

/-- Lets the collectors work until all have ended or nothing is due any more, `fuel` turns and jumps
of the clock at most. They are cancelled at the moment `cancelAt`. Collectors woken by the clock
take their turn before everybody else, and before they are cancelled at that moment. -/
def play (cancelAt : Option Nat) : Nat → Rehearsal → Rehearsal
  | 0, r => r
  | fuel + 1, r =>
    if r.isOver then r
    else
      match r.ready with
      | part :: rest => play cancelAt fuel ({ r with ready := rest }.turn fuel part)
      | [] =>
        let cancels := if r.isCancelled then [] else cancelAt.toList
        match (r.alarms.map (·.1) ++ cancels).min? with
        | none => r
        | some now =>
          let r := r.jump now
          let r :=
            if r.ready.contains Part.collectors then
              { r with ready := r.ready.filter (· ≠ Part.collectors) }.turn fuel .collectors
            else r
          play cancelAt fuel (if cancels.contains now && !r.isOver then r.cancel else r)

/-- Collectors about to begin. -/
def begin (policy : PollingSettings) (session : Session) (stubs : Stubs) (runs : Collectors)
    (isCancelled : Bool) : Rehearsal where
  policy
  now := 0
  isCancelled
  session
  stubs
  runs
  calls := .empty
  turns := 0
  ready := [.collectors]
  alarms := []
  hasCrashed := false

end Rehearsal

end MergeConflict
