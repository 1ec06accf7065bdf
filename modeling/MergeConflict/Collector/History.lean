import MergeConflict.Engine.Failure

/-!
The history collector: asks once, and gets a record per block in the order of the blocks.
-/

namespace MergeConflict

inductive HistoryRun where
  | asking
  | waiting
  /-- Has an answer that the session does not know of yet. -/
  | holding (answer : Except Failure (List HistoryRecord))
  | ended (result : Except EngineError Nat)

namespace HistoryRun

/-- Puts the records in, the first for block 1. -/
def put (session : Session) (records : List HistoryRecord) : Session :=
  records.zipIdx.foldl
    (fun session (record, index) => session.commit (.history (index + 1) record.candidates))
    session

/-- The next move without an event from outside; a run that is cancelled ends wherever it would
wait. -/
def advance (cancelled : Bool) (session : Session) : HistoryRun → Option (HistoryRun × Session)
  | asking => some (if cancelled then ended (.error .cancelled) else waiting, session)
  | waiting => if cancelled then some (ended (.error .cancelled), session) else none
  | holding (.error failure) => some (ended (.error (.failed failure)), session)
  | holding (.ok records) => some (ended (.ok records.length), put session records)
  | ended _ => none

/-- The query that goes out with the next move. -/
def query? (cancelled : Bool) (session : Session) : HistoryRun → Option HistoryQuery
  | asking => if cancelled then none else some session.file.historyQuery
  | _ => none

/-- The history answers. -/
def receive (answer : Except Failure (List HistoryRecord)) : HistoryRun → Option HistoryRun
  | waiting => some (holding answer)
  | _ => none

def result? : HistoryRun → Option (Except EngineError Nat)
  | ended result => some result
  | _ => none

end HistoryRun

end MergeConflict
