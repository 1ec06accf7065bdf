import MergeConflict.Engine.Failure

/-!
The heuristic collector: asks the engine until an answer is final.

A run is a machine. `advance` is its next move when it waits for nothing from outside, and also the
move by which it notices that it is cancelled; `receive` and `wake` are the events it waits for. A
move touches the session at most once, so runs of other collectors may come between any two moves.
-/

namespace MergeConflict

inductive HeuristicRun where
  | opening
  /-- About to ask. -/
  | asking (attempt : Nat)
  | waiting (attempt : Nat)
  /-- Has an answer that the session does not know of yet. -/
  | holding (attempt : Nat) (answer : Except Failure Report)
  /-- Between two attempts, until the timer has run for `interval` milliseconds. -/
  | resting (attempt interval : Nat)
  /-- Out of attempts. -/
  | expiring
  | ended (result : Except EngineError Unit)

namespace HeuristicRun

/-- The state behind an attempt that got no final answer, before any rest. -/
def behind (policy : PollingSettings) (attempt : Nat) (more : HeuristicRun) : HeuristicRun :=
  if attempt < policy.attempts then more else expiring

/-- The next move without an event from outside; a run that is cancelled ends wherever it would
wait. -/
def advance (policy : PollingSettings) (cancelled : Bool) (session : Session) :
    HeuristicRun → Option (HeuristicRun × Session)
  | opening => some (behind policy 0 (asking 1), session.commit .heuristicStarted)
  | asking attempt =>
    some (if cancelled then ended (.error .cancelled) else waiting attempt, session)
  | waiting _ => if cancelled then some (ended (.error .cancelled), session) else none
  | holding attempt (.ok report) =>
    let next :=
      if report.pending then behind policy attempt (resting attempt policy.interval)
      else ended (.ok ())
    some (next, session.commit (.heuristic report))
  | holding _ (.error failure) =>
    some (ended (.error (.failed failure)), session.commit .heuristicFailed)
  | resting .. => if cancelled then some (ended (.error .cancelled), session) else none
  | expiring =>
    some (ended (.error (.timeout policy.attempts)), session.commit .heuristicTimedOut)
  | ended _ => none

/-- The request that goes out with the next move. -/
def request? (cancelled : Bool) (session : Session) : HeuristicRun → Option HeuristicRequest
  | asking _ => if cancelled then none else some session.file.heuristicRequest
  | _ => none

/-- The interval that the timer is asked for. -/
def interval? : HeuristicRun → Option Nat
  | resting _ interval => some interval
  | _ => none

/-- The engine answers. -/
def receive (answer : Except Failure Report) : HeuristicRun → Option HeuristicRun
  | waiting attempt => some (holding attempt answer)
  | _ => none

/-- The rest is over. -/
def wake : HeuristicRun → Option HeuristicRun
  | resting attempt _ => some (asking (attempt + 1))
  | _ => none

def result? : HeuristicRun → Option (Except EngineError Unit)
  | ended result => some result
  | _ => none

end HeuristicRun

end MergeConflict
