import MergeConflict.Gateway
import MergeConflict.Rehearsal

/-!
The background of a gateway, worked by engines that answer from cues.

The jobs that requests leave behind go on only while the clock is moved, up to but not including
the moment it is moved to. Those who take part in a fetch wait in one line with those of all other
fetches; reports to the audit are made in the order in which they came.
-/

namespace MergeConflict

/-- A fetch at work. -/
structure FetchJob where
  id : SessionId
  token : FetchToken
  fetch : Fetch
  calls : Calls
  turns : Nat

/-- A report to the audit; no call means it has not been made yet. -/
structure AuditJob where
  id : SessionId
  record : ChoiceRecord
  call : Option (Call Unit)

/-- Someone who takes turns in a fetch. -/
structure Player where
  token : FetchToken
  part : Part
deriving DecidableEq, Repr

structure Background where
  gateway : Gateway
  now : Nat
  stubs : Stubs
  fetches : List FetchJob
  /-- Whoever is ready, the next one first. -/
  ready : List Player
  /-- When somebody is to be woken, in the order in which they lay down. -/
  alarms : List (Nat × Player)
  audits : List AuditJob

namespace Background

def start (settings : Settings) (stubs : Stubs) : Background :=
  ⟨.start settings stubs.engines, 0, stubs, [], [], [], []⟩

/-- Puts somebody at the end of the line who does not stand in it. -/
def wake (b : Background) (player : Player) : Background :=
  if b.ready.contains player then b else { b with ready := b.ready ++ [player] }

/-- Takes a job in. -/
def accept (b : Background) : Job → Background
  | .fetch id token =>
    let fetch := Fetch.collecting (.ofEngines b.gateway.engines)
    { b with fetches := b.fetches ++ [FetchJob.mk id token fetch .empty 0] }.wake
      (.mk token .collectors)
  | .audit id record => { b with audits := b.audits ++ [⟨id, record, none⟩] }

/-- Takes in another state of the gateway, and wakes the collectors that are cancelled by it. -/
def withGateway (b : Background) (gateway : Gateway) : Background :=
  let cancelled := b.fetches.filter fun job =>
    gateway.fetches.isCancelled job.token && !b.gateway.fetches.isCancelled job.token
  cancelled.foldl (fun b job => b.wake (.mk job.token .collectors)) { b with gateway }

/-- Handles a request. -/
def handle (b : Background) (fresh : SessionId) (request : Http.Request) :
    Background × Response :=
  let handled := b.gateway.handle fresh request
  let b := b.withGateway handled.gateway
  (handled.job.elim b b.accept, handled.response)

/-- The collectors of a job as they stand now. -/
def rehearsal (b : Background) (job : FetchJob) (runs : Collectors) (session : Session) :
    Rehearsal where
  policy := b.gateway.settings.polling
  now := b.now
  isCancelled := b.gateway.fetches.isCancelled job.token
  session
  stubs := b.stubs
  runs
  calls := job.calls
  turns := job.turns
  ready := []
  alarms := []
  hasCrashed := false

/-- Gives up a fetch. -/
def drop (b : Background) (token : FetchToken) : Background :=
  { b with
    fetches := b.fetches.filter (·.token ≠ token)
    ready := b.ready.filter (·.token ≠ token)
    alarms := b.alarms.filter (·.2.token ≠ token) }

/-- The moves of a fetch that nothing can hold up any more, `fuel` at most. -/
def settle : Nat → Fetch → Session → Fetch × Session
  | 0, fetch, session => (fetch, session)
  | fuel + 1, fetch, session =>
    match fetch.advance session with
    | some (fetch, session) => settle fuel fetch session
    | none => (fetch, session)

/-- Takes in what a turn has made of a fetch. One that is taken down is given up without a word;
one whose report is given is done. -/
def absorb (fuel : Nat) (b : Background) (job : FetchJob) (r : Rehearsal) : Background :=
  let (fetch, session) := settle fuel (.collecting r.runs) r.session
  let b := { b with gateway := b.gateway.withSession job.id session, stubs := r.stubs }
  if r.hasCrashed then b.drop job.token
  else if fetch.hasEnded then
    { b.drop job.token with gateway := b.gateway.completeFetch job.id job.token }
  else
    let job := { job with fetch, calls := r.calls, turns := r.turns }
    let player (part : Part) : Player := ⟨job.token, part⟩
    r.ready.foldl (fun b part => b.wake (player part))
      { b with
        fetches := b.fetches.map fun other => if other.token = job.token then job else other
        alarms := b.alarms ++ r.alarms.map fun (moment, part) => (moment, player part) }

/-- Somebody takes a turn in a fetch. -/
def turn (fuel : Nat) (b : Background) (player : Player) : Background :=
  match b.fetches.find? (·.token = player.token) with
  | none => b
  | some job =>
    match job.fetch, b.gateway.held? job.id with
    | .collecting runs, some session =>
      b.absorb fuel job ((b.rehearsal job runs session).turn fuel player.part)
    | _, _ => b

/-- A refused report leaves a notice in the session. -/
def endAudit (b : Background) (job : AuditJob) (call : Call Unit) : Background :=
  match call.answer, b.gateway.held? job.id with
  | some (.error failure), some session =>
    { b with gateway := b.gateway.withSession job.id (session.notify failure.auditNotice) }
  | _, _ => b

/-- Makes the first move that is possible among reports to the audit. -/
def moveAudits (b : Background) : List AuditJob → List AuditJob → Option Background
  | _, [] => none
  | before, job :: rest =>
    match job.call with
    | none =>
      let (call, stubs) := b.stubs.askAudit b.now job.record
      some { b with stubs, audits := before ++ { job with call := some call } :: rest }
    | some call =>
      if call.isDue b.now then some { b.endAudit job call with audits := before ++ rest }
      else moveAudits b (before ++ [job]) rest

/-- The next thing that happens before the clock moves. -/
def move (fuel : Nat) (b : Background) : Option Background :=
  match b.ready with
  | player :: rest => some ({ b with ready := rest }.turn fuel player)
  | [] => b.moveAudits [] b.audits

/-- The moments at which something that is waited for is due. -/
def dues (b : Background) : List Nat :=
  b.alarms.map (·.1) ++ b.audits.flatMap fun job => (job.call.bind Call.due).toList

/-- Moves the clock, and wakes those whose alarms ring. -/
def jump (b : Background) (now : Nat) : Background :=
  (b.alarms.filter (·.1 ≤ now)).foldl (fun b alarm => b.wake alarm.2)
    { b with now, alarms := b.alarms.filter fun alarm => decide (now < alarm.1) }

/-- Lets time pass up to a moment, `fuel` turns and jumps at most. -/
def waitUntil (moment : Nat) : Nat → Background → Background
  | 0, b => b
  | fuel + 1, b =>
    match b.move fuel with
    | some next => waitUntil moment fuel next
    | none =>
      match b.dues.min? with
      | some due =>
        if due < moment then waitUntil moment fuel (b.jump due) else b.jump moment
      | none => b.jump moment

/-- Waits so many milliseconds; without a pause nobody gets a turn. -/
def wait (pause : Nat) (fuel : Nat) (b : Background) : Background :=
  if pause = 0 then b else b.waitUntil (b.now + pause) fuel

end Background

end MergeConflict
