import MergeConflict.Collector
import MergeConflict.Proofs.BufferMoves
import MergeConflict.Proofs.PoolLog

/-!
# Collectors on one session

Any number of collectors work on a session side by side. Each of them can be cancelled, moves on its
own, and is told of the answers it waits for; between any two of its moves the others may move, and
the front-end may do to the session what it likes. `Team.step?` is one such step and `Team.run?` any
interleaving of them. A team keeps books of what its members put in and were told, which no step
looks at.

* `Worker.advance_moved`: a move of a collector puts in the results it owes, `Worker.updates`, or
  gives a notice, and does nothing else to the session.
* `Team.step?_eq_some_iff`: all that a step can do.
* `Team.run?_induction`: what holds at first and is kept by every step holds in the end.
-/

namespace MergeConflict

/-! ## One collector -/

namespace Session

/-- The session after some results have been put in. -/
def commitAll (session : Session) (updates : List Update) : Session :=
  updates.foldl commit session

/-- A result that the pool drops changes nothing. -/
theorem commit_of_dropped {session : Session} {update : Update}
    (dropped : session.buffer.pool.commit update = session.buffer.pool) :
    session.commit update = session := by
  rw [commit, Buffer.commit_fst_of_merged_eq (congrArg Pool.merged dropped), dropped]

theorem commitAll_pool (session : Session) (updates : List Update) :
    (session.commitAll updates).buffer.pool = updates.foldl Pool.commit session.buffer.pool := by
  induction updates generalizing session with
  | nil => rfl
  | cons update updates ih =>
    exact (ih (session.commit update)).trans
      (congrArg (updates.foldl Pool.commit) (Buffer.commit_pool session.buffer update))

/-- A session that somebody has put some results in, or given a notice. -/
def Moved (session : Session) (updates : List Update) (after : Session) : Prop :=
  after = session.commitAll updates ∨ updates = [] ∧ ∃ notice, after = session.notify notice

theorem Moved.pool {session after : Session} {updates : List Update}
    (moved : session.Moved updates after) :
    after.buffer.pool = updates.foldl Pool.commit session.buffer.pool := by
  rcases moved with rfl | ⟨rfl, notice, rfl⟩
  · exact commitAll_pool session updates
  · rfl

end Session

variable {cancelled : Bool} {session after : Session}

namespace HeuristicRun

/-- The results that the next move puts in. -/
def updates : HeuristicRun → List Update
  | opening => [.heuristicStarted]
  | holding _ (.ok report) => [.heuristic report]
  | holding _ (.error _) => [.heuristicFailed]
  | expiring => [.heuristicTimedOut]
  | _ => []

theorem advance_moved {policy : PollingSettings} {run next : HeuristicRun}
    (moved : run.advance policy cancelled session = some (next, after)) :
    session.Moved run.updates after := by
  cases run with
  | holding attempt answer =>
    cases answer with
    | ok report => cases moved; exact .inl rfl
    | error failure => cases moved; exact .inl rfl
  | waiting attempt =>
    cases cancelled with
    | true => cases moved; exact .inl rfl
    | false => cases moved
  | resting attempt interval =>
    cases cancelled with
    | true => cases moved; exact .inl rfl
    | false => cases moved
  | ended result => cases moved
  | _ => cases moved; exact .inl rfl

end HeuristicRun

namespace LabelRun

/-- The results that the next move puts in. -/
def updates : LabelRun → List Update
  | holding (.ok _) => [.labelsCleared]
  | joined block (.ok candidate) _ _ => [.label block candidate]
  | _ => []

theorem sort_moved (hasCombiner : Bool) (session : Session) (prediction : Prediction)
    (tasks : List LabelTask) : session.Moved [] (sort hasCombiner session prediction tasks).2 := by
  unfold sort
  split
  · exact .inr ⟨rfl, _, rfl⟩
  · simp only
    split
    · exact .inr ⟨rfl, _, rfl⟩
    · exact .inl rfl

theorem advance_moved {hasCombiner : Bool} {run next : LabelRun}
    (moved : run.advance hasCombiner cancelled session = some (next, after)) :
    session.Moved run.updates after := by
  cases run with
  | asking => cases moved; exact .inl rfl
  | waiting =>
    cases cancelled with
    | true => cases moved; exact .inl rfl
    | false => cases moved
  | holding answer =>
    cases answer with
    | ok predictions => cases moved; exact .inl rfl
    | error failure => cases moved; exact .inl rfl
  | sorting predictions tasks =>
    cases predictions with
    | nil => cases moved; exact .inl rfl
    | cons prediction rest => cases moved; exact sort_moved hasCombiner session prediction tasks
  | joining tasks count =>
    rw [advance] at moved
    split at moved
    · cases moved; exact .inl rfl
    · split at moved
      · cases moved; exact .inl rfl
      · cases moved
  | joined block result tasks count =>
    cases result with
    | ok candidate => cases moved; exact .inl rfl
    | error failure => cases moved; exact .inr ⟨rfl, _, rfl⟩
  | ended result => cases moved

end LabelRun

namespace ScriptRun

/-- The results that the next move puts in. -/
def updates (session : Session) : ScriptRun → List Update
  | opening => [.batchStarted (session.buffer.pool.batch + 1)]
  | joined batch block (.ok outcome) _ _ => [.script batch block outcome]
  | closing batch _ => [.batchFinished batch]
  | _ => []

theorem advance_moved {run next : ScriptRun}
    (moved : run.advance cancelled session = some (next, after)) :
    session.Moved (run.updates session) after := by
  cases run with
  | opening => cases moved; exact .inl rfl
  | joining batch tasks count =>
    rw [advance] at moved
    split at moved
    · cases moved; exact .inl rfl
    · split at moved
      · cases moved; exact .inl rfl
      · cases moved
  | joined batch block result tasks count =>
    cases result with
    | ok outcome => cases moved; exact .inl rfl
    | error failure => cases moved; exact .inr ⟨rfl, _, rfl⟩
  | closing batch result => cases moved; exact .inl rfl
  | ended result => cases moved

end ScriptRun

namespace HistoryRun

/-- The results that the next move puts in. -/
def updates : HistoryRun → List Update
  | holding (.ok records) =>
    records.zipIdx.map fun (record, index) => .history (index + 1) record.candidates
  | _ => []

theorem advance_moved {run next : HistoryRun}
    (moved : run.advance cancelled session = some (next, after)) :
    session.Moved run.updates after := by
  cases run with
  | asking => cases moved; exact .inl rfl
  | waiting =>
    cases cancelled with
    | true => cases moved; exact .inl rfl
    | false => cases moved
  | holding answer =>
    cases answer with
    | ok records =>
      cases moved
      exact .inl (by rw [put, Session.commitAll, updates, List.foldl_map])
    | error failure => cases moved; exact .inl rfl
  | ended result => cases moved

end HistoryRun

/-- A collector at work. -/
inductive Worker where
  | heuristic (policy : PollingSettings) (run : HeuristicRun)
  | labels (hasCombiner : Bool) (run : LabelRun)
  | scripts (run : ScriptRun)
  | history (run : HistoryRun)

/-- What a collector waits for from outside. -/
inductive News where
  | report (answer : Except Failure Report)
  /-- The rest between two attempts is over. -/
  | rested
  | predictions (answer : Except Failure (List Prediction))
  | labelDone (task : Nat) (content : Option (Except Failure String))
  | scriptDone (block : Nat) (outcome : Option (Except Failure ScriptOutcome))
  | records (answer : Except Failure (List HistoryRecord))

namespace Worker

def source : Worker → Source
  | heuristic .. => .heuristic
  | labels .. => .classifier
  | scripts _ => .editScript
  | history _ => .history

/-- Whether the collector is about to begin. -/
def isNew : Worker → Bool
  | heuristic _ .opening => true
  | labels _ .asking => true
  | scripts .opening => true
  | history .asking => true
  | _ => false

/-- The next move without an event from outside. -/
def advance (cancelled : Bool) (session : Session) : Worker → Option (Worker × Session)
  | heuristic policy run =>
    (run.advance policy cancelled session).map fun (run, session) => (heuristic policy run, session)
  | labels hasCombiner run =>
    (run.advance hasCombiner cancelled session).map fun (run, session) =>
      (labels hasCombiner run, session)
  | scripts run =>
    (run.advance cancelled session).map fun (run, session) => (scripts run, session)
  | history run =>
    (run.advance cancelled session).map fun (run, session) => (history run, session)

/-- What the collector waits for happens. -/
def hear : News → Worker → Option Worker
  | .report answer, heuristic policy run => (run.receive answer).map (heuristic policy)
  | .rested, heuristic policy run => run.wake.map (heuristic policy)
  | .predictions answer, labels hasCombiner run => (run.receive answer).map (labels hasCombiner)
  | .labelDone task content, labels hasCombiner run =>
    (run.join task content).map (labels hasCombiner)
  | .scriptDone block outcome, scripts run => (run.join block outcome).map scripts
  | .records answer, history run => (run.receive answer).map history
  | _, _ => none

/-- A task of the collector asks its engine. -/
def start (task : Nat) : Worker → Option Worker
  | labels hasCombiner run => (run.start task).map (labels hasCombiner)
  | scripts run => (run.start task).map scripts
  | _ => none

/-- The results that the next move puts in. -/
def updates (session : Session) : Worker → List Update
  | heuristic _ run => run.updates
  | labels _ run => run.updates
  | scripts run => run.updates session
  | history run => run.updates

variable {worker next : Worker}

/-- A move of a collector is a move of its run. -/
inductive Advances (cancelled : Bool) (session after : Session) : Worker → Worker → Prop
  | heuristic {policy : PollingSettings} {run next : HeuristicRun} :
    run.advance policy cancelled session = some (next, after) →
    Advances cancelled session after (.heuristic policy run) (.heuristic policy next)
  | labels {hasCombiner : Bool} {run next : LabelRun} :
    run.advance hasCombiner cancelled session = some (next, after) →
    Advances cancelled session after (.labels hasCombiner run) (.labels hasCombiner next)
  | scripts {run next : ScriptRun} : run.advance cancelled session = some (next, after) →
    Advances cancelled session after (.scripts run) (.scripts next)
  | history {run next : HistoryRun} : run.advance cancelled session = some (next, after) →
    Advances cancelled session after (.history run) (.history next)

theorem advances_of_advance (moved : worker.advance cancelled session = some (next, after)) :
    Advances cancelled session after worker next := by
  cases worker with
  | heuristic policy run =>
    obtain ⟨⟨run', after⟩, moved, same⟩ := Option.map_eq_some_iff.1 moved
    cases same
    exact .heuristic moved
  | labels hasCombiner run =>
    obtain ⟨⟨run', after⟩, moved, same⟩ := Option.map_eq_some_iff.1 moved
    cases same
    exact .labels moved
  | scripts run =>
    obtain ⟨⟨run', after⟩, moved, same⟩ := Option.map_eq_some_iff.1 moved
    cases same
    exact .scripts moved
  | history run =>
    obtain ⟨⟨run', after⟩, moved, same⟩ := Option.map_eq_some_iff.1 moved
    cases same
    exact .history moved

/-- A move puts in the results it owes, or gives a notice, and does nothing else. -/
theorem advance_moved (moved : worker.advance cancelled session = some (next, after)) :
    session.Moved (worker.updates session) after := by
  cases advances_of_advance moved with
  | heuristic ran => exact HeuristicRun.advance_moved ran
  | labels ran => exact LabelRun.advance_moved ran
  | scripts ran => exact ScriptRun.advance_moved ran
  | history ran => exact HistoryRun.advance_moved ran

/-- A collector puts in results of its own source only. -/
theorem source_of_mem_updates {update : Update} (inside : update ∈ worker.updates session) :
    update.source = worker.source := by
  cases worker with
  | heuristic policy run =>
    rw [updates, HeuristicRun.updates.eq_def] at inside
    split at inside
    all_goals simp only [List.mem_singleton, List.not_mem_nil] at inside
    all_goals subst inside; rfl
  | labels hasCombiner run =>
    rw [updates, LabelRun.updates.eq_def] at inside
    split at inside
    all_goals simp only [List.mem_singleton, List.not_mem_nil] at inside
    all_goals subst inside; rfl
  | scripts run =>
    rw [updates, ScriptRun.updates.eq_def] at inside
    split at inside
    all_goals simp only [List.mem_singleton, List.not_mem_nil] at inside
    all_goals subst inside; rfl
  | history run =>
    rw [updates, HistoryRun.updates.eq_def] at inside
    split at inside
    · obtain ⟨_, -, rfl⟩ := List.mem_map.1 inside
      rfl
    · exact (List.not_mem_nil inside).elim

theorem source_advance (moved : worker.advance cancelled session = some (next, after)) :
    next.source = worker.source := by
  cases advances_of_advance moved with
  | _ => rfl

theorem source_hear {news : News} (told : worker.hear news = some next) :
    next.source = worker.source := by
  unfold hear at told
  split at told
  case h_7 => cases told
  all_goals
    obtain ⟨run, -, rfl⟩ := Option.map_eq_some_iff.1 told
    rfl

theorem source_start {task : Nat} (started : worker.start task = some next) :
    next.source = worker.source := by
  cases worker with
  | labels hasCombiner run =>
    obtain ⟨run, -, rfl⟩ := Option.map_eq_some_iff.1 started
    rfl
  | scripts run =>
    obtain ⟨run, -, rfl⟩ := Option.map_eq_some_iff.1 started
    rfl
  | _ => cases started

/-- The collector is at its end. -/
def hasEnded : Worker → Bool
  | heuristic _ run => run.result?.isSome
  | labels _ run => run.result?.isSome
  | scripts run => run.result?.isSome
  | history run => run.result?.isSome

theorem advance_of_hasEnded (ended : worker.hasEnded = true) :
    worker.advance cancelled session = none := by
  cases worker with
  | _ =>
    rename_i run
    cases run with
    | ended result => rfl
    | _ => cases ended

theorem hear_of_hasEnded (ended : worker.hasEnded = true) (news : News) :
    worker.hear news = none := by
  cases worker with
  | _ =>
    rename_i run
    cases run with
    | ended result => cases news <;> rfl
    | _ => cases ended

theorem start_of_hasEnded (ended : worker.hasEnded = true) (task : Nat) :
    worker.start task = none := by
  cases worker with
  | _ =>
    rename_i run
    cases run with
    | ended result => rfl
    | _ => cases ended

end Worker

/-! ## Any number of collectors -/

/-- A collector with its token. -/
structure Member where
  worker : Worker
  isCancelled : Bool

/-- The collectors of a session; each is known by its place. -/
structure Team where
  session : Session
  members : List Member
  /-- What members have put in, in order. -/
  journal : List (Nat × Update)
  /-- What members have been told, in order. -/
  heard : List (Nat × News)

namespace Team

inductive Event where
  /-- A collector is set to work. -/
  | enter (worker : Worker)
  | cancel (i : Nat)
  | advance (i : Nat)
  | hear (i : Nat) (news : News)
  | start (i task : Nat)
  /-- The front-end does something to the buffer. -/
  | move (move : Buffer.Move)
  | notify (notice : Notice)

/-- A session that no collector works on. -/
def ofSession (session : Session) : Team :=
  ⟨session, [], [], []⟩

/-- The member that an event is about. -/
def Event.member? : Event → Option Nat
  | .cancel i => some i
  | .advance i => some i
  | .hear i _ => some i
  | .start i _ => some i
  | _ => none

/-- A session with one block. -/
def oneBlock : Session :=
  .ofBuffer .blank (.ofLines ["<<<<<<<", "a", "=======", "b", ">>>>>>>"] .lines)

/-- One step. A member that is cancelled is not told anything any more. -/
def step? (team : Team) : Event → Option Team
  | .enter worker =>
    if worker.isNew then some { team with members := team.members ++ [⟨worker, false⟩] } else none
  | .cancel i => do
    let member ← team.members[i]?
    some { team with members := team.members.set i { member with isCancelled := true } }
  | .advance i => do
    let member ← team.members[i]?
    let (worker, session) ← member.worker.advance member.isCancelled team.session
    some { team with
      session
      members := team.members.set i { member with worker }
      journal := team.journal ++ (member.worker.updates team.session).map (i, ·) }
  | .hear i news => do
    let member ← team.members[i]?
    if member.isCancelled then none
    else
      let worker ← member.worker.hear news
      some { team with
        members := team.members.set i { member with worker }
        heard := team.heard ++ [(i, news)] }
  | .start i task => do
    let member ← team.members[i]?
    let worker ← member.worker.start task
    some { team with members := team.members.set i { member with worker } }
  | .move move =>
    some { team with session := { team.session with buffer := team.session.buffer.move move } }
  | .notify notice => some { team with session := team.session.notify notice }

/-- The team after some steps, each of which has to be possible. -/
def run? (team : Team) (events : List Event) : Option Team :=
  events.foldlM step? team

/-- All that a step can do. -/
inductive Step (team : Team) : Event → Team → Prop
  | enter {worker : Worker} : worker.isNew = true →
    Step team (.enter worker) { team with members := team.members ++ [⟨worker, false⟩] }
  | cancel {i : Nat} {member : Member} : team.members[i]? = some member →
    Step team (.cancel i)
      { team with members := team.members.set i { member with isCancelled := true } }
  | advance {i : Nat} {member : Member} {worker : Worker} {session : Session} :
    team.members[i]? = some member →
    member.worker.advance member.isCancelled team.session = some (worker, session) →
    Step team (.advance i)
      { team with
        session
        members := team.members.set i { member with worker }
        journal := team.journal ++ (member.worker.updates team.session).map (i, ·) }
  | hear {i : Nat} {news : News} {member : Member} {worker : Worker} :
    team.members[i]? = some member → member.isCancelled = false →
    member.worker.hear news = some worker →
    Step team (.hear i news)
      { team with
        members := team.members.set i { member with worker }
        heard := team.heard ++ [(i, news)] }
  | start {i task : Nat} {member : Member} {worker : Worker} :
    team.members[i]? = some member → member.worker.start task = some worker →
    Step team (.start i task) { team with members := team.members.set i { member with worker } }
  | move (move : Buffer.Move) :
    Step team (.move move)
      { team with session := { team.session with buffer := team.session.buffer.move move } }
  | notify (notice : Notice) :
    Step team (.notify notice) { team with session := team.session.notify notice }

variable {team next : Team} {event : Event} {source : Source}

theorem step?_eq_some_iff : team.step? event = some next ↔ Step team event next := by
  constructor
  · intro taken
    cases event with
    | enter worker =>
      rw [step?] at taken
      split at taken
      · next fresh => cases taken; exact .enter fresh
      · cases taken
    | cancel i =>
      obtain ⟨member, inside, taken⟩ := Option.bind_eq_some_iff.1 taken
      cases taken
      exact .cancel inside
    | advance i =>
      obtain ⟨member, inside, taken⟩ := Option.bind_eq_some_iff.1 taken
      obtain ⟨⟨worker, session⟩, moved, taken⟩ := Option.bind_eq_some_iff.1 taken
      cases taken
      exact .advance inside moved
    | hear i news =>
      obtain ⟨member, inside, taken⟩ := Option.bind_eq_some_iff.1 taken
      split at taken
      · cases taken
      · next running =>
        obtain ⟨worker, told, taken⟩ := Option.bind_eq_some_iff.1 taken
        cases taken
        exact .hear inside (Bool.eq_false_iff.2 running) told
    | start i task =>
      obtain ⟨member, inside, taken⟩ := Option.bind_eq_some_iff.1 taken
      obtain ⟨worker, started, taken⟩ := Option.bind_eq_some_iff.1 taken
      cases taken
      exact .start inside started
    | move move => cases taken; exact .move move
    | notify notice => cases taken; exact .notify notice
  · intro step
    cases step with
    | enter fresh => exact if_pos fresh
    | cancel inside => simp [step?, inside]
    | advance inside moved => simp [step?, inside, moved]
    | hear inside running told => simp [step?, inside, running, told]
    | start inside started => simp [step?, inside, started]
    | move move => rfl
    | notify notice => rfl

theorem run?_concat (team : Team) (events : List Event) (event : Event) :
    team.run? (events ++ [event]) = (team.run? events).bind (·.step? event) := by
  rw [run?, run?, List.foldlM_append]
  congr
  funext between
  simp

theorem run?_cons_eq_some_iff {events : List Event} {after : Team} :
    team.run? (event :: events) = some after ↔
      ∃ next, Step team event next ∧ next.run? events = some after := by
  rw [run?, List.foldlM_cons, Option.bind_eq_bind, Option.bind_eq_some_iff]
  simp only [step?_eq_some_iff, run?]

theorem run?_append (team : Team) (events more : List Event) :
    team.run? (events ++ more) = (team.run? events).bind (·.run? more) :=
  List.foldlM_append

/-- What holds at first and is kept by every step that is allowed holds in the end. -/
theorem run?_induction {holds : Team → Prop} {allowed : Event → Prop} (first : holds team)
    (kept : ∀ before event after, allowed event → Step before event after → holds before →
      holds after)
    {events : List Event} (all : ∀ event ∈ events, allowed event)
    (reached : team.run? events = some next) : holds next := by
  induction events using List.reverseRecOn generalizing next with
  | nil => cases reached; exact first
  | append_singleton events event ih =>
    rw [run?_concat] at reached
    obtain ⟨between, reached, taken⟩ := Option.bind_eq_some_iff.1 reached
    exact kept between event next (all event (by simp)) (step?_eq_some_iff.1 taken)
      (ih (fun other inside => all other (by simp [inside])) reached)

/-- The results that come into the pool with an event. -/
def updates (team : Team) : Event → List Update
  | .advance i =>
    match team.members[i]? with
    | some member => member.worker.updates team.session
    | none => []
  | .move move => move.update?.toList
  | _ => []

theorem Step.pool (step : Step team event next) :
    next.session.buffer.pool = (team.updates event).foldl Pool.commit team.session.buffer.pool := by
  cases step with
  | advance inside moved =>
    rw [updates, inside]
    exact (Worker.advance_moved moved).pool
  | move move =>
    refine (Buffer.move_pool team.session.buffer move).trans ?_
    rw [updates]
    cases move.update? with
    | none => rfl
    | some update => rfl
  | _ => rfl

/-- A step as one member has a part in it, or not. -/
inductive Turn (team next : Team) (b : Nat) (member : Member) : Event → Prop
  | aside {event : Event} : event.member? ≠ some b → next.members[b]? = some member →
    Turn team next b member event
  | cancelled : next.session = team.session →
    next.members[b]? = some { member with isCancelled := true } →
    Turn team next b member (.cancel b)
  | advanced {worker : Worker} :
    member.worker.advance member.isCancelled team.session = some (worker, next.session) →
    next.members[b]? = some { member with worker } → Turn team next b member (.advance b)
  | told {news : News} {worker : Worker} : member.isCancelled = false →
    member.worker.hear news = some worker → next.session = team.session →
    next.members[b]? = some { member with worker } → Turn team next b member (.hear b news)
  | started {task : Nat} {worker : Worker} : member.worker.start task = some worker →
    next.session = team.session → next.members[b]? = some { member with worker } →
    Turn team next b member (.start b task)

theorem Step.turn {b : Nat} {member : Member} (step : Step team event next)
    (inside : team.members[b]? = some member) : Turn team next b member event := by
  have within : b < team.members.length := (List.getElem?_eq_some_iff.1 inside).1
  have self (changed : Member) : (team.members.set b changed)[b]? = some changed :=
    List.getElem?_set_self within
  have other {i : Nat} (changed : Member) (apart : i ≠ b) :
      (team.members.set i changed)[b]? = some member :=
    (List.getElem?_set_ne apart).trans inside
  cases step with
  | enter fresh => exact .aside nofun ((List.getElem?_append_left within).trans inside)
  | @cancel i _ here =>
    by_cases own : i = b
    · subst own
      cases here.symm.trans inside
      exact .cancelled rfl (self _)
    · exact .aside (fun same => own (Option.some.inj same)) (other _ own)
  | @advance i _ worker session here moved =>
    by_cases own : i = b
    · subst own
      cases here.symm.trans inside
      exact .advanced moved (self _)
    · exact .aside (fun same => own (Option.some.inj same)) (other _ own)
  | @hear i news _ worker here running told =>
    by_cases own : i = b
    · subst own
      cases here.symm.trans inside
      exact .told running told rfl (self _)
    · exact .aside (fun same => own (Option.some.inj same)) (other _ own)
  | @start i task _ worker here started =>
    by_cases own : i = b
    · subst own
      cases here.symm.trans inside
      exact .started started rfl (self _)
    · exact .aside (fun same => own (Option.some.inj same)) (other _ own)
  | move change => exact .aside nofun inside
  | notify notice => exact .aside nofun inside

/-- What is seen of some steps, in order. -/
def trace {α : Type} (seen : Team → Event → List α) (team : Team) : List Event → List α
  | [] => []
  | event :: events =>
    seen team event ++ (team.step? event).elim [] fun next => next.trace seen events

theorem trace_cons_of_step {α : Type} {seen : Team → Event → List α} (step : Step team event next)
    (events : List Event) :
    team.trace seen (event :: events) = seen team event ++ next.trace seen events := by
  rw [trace, step?_eq_some_iff.2 step]
  rfl

/-- All that comes into the pool along some steps makes up what it holds behind them. -/
theorem pool_of_run? {events : List Event} (reached : team.run? events = some next) :
    next.session.buffer.pool =
      (team.trace updates events).foldl Pool.commit team.session.buffer.pool := by
  induction events generalizing team with
  | nil => cases reached; rfl
  | cons event events ih =>
    obtain ⟨between, step, reached⟩ := run?_cons_eq_some_iff.1 reached
    rw [ih reached, step.pool, trace_cons_of_step step, List.foldl_append]

/-- The front-end puts in nothing of a source. -/
def Event.Spares (source : Source) : Event → Prop
  | .move change => ∀ update ∈ change.update?, update.source ≠ source
  | _ => True

/-- A step of a member of another source, or of the front-end that spares a source, leaves what the
pool holds of the source as it is. -/
theorem Step.agrees (step : Step team event next) (spares : event.Spares source)
    (foreign : ∀ i member, event = .advance i → team.members[i]? = some member →
      member.worker.source ≠ source) :
    Pool.Agrees source next.session.buffer.pool team.session.buffer.pool := by
  rw [step.pool]
  refine Pool.foldl_commit_agrees (fun update inside => ?_) _
  cases event with
  | advance i =>
    rw [updates] at inside
    split at inside
    · next member here =>
      rw [Worker.source_of_mem_updates inside]
      exact foreign i member rfl here
    · exact (List.not_mem_nil inside).elim
  | move move => exact spares update (Option.mem_toList.1 inside)
  | _ => exact (List.not_mem_nil inside).elim

end Team

end MergeConflict
