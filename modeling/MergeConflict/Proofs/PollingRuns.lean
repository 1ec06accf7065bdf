import MergeConflict.Proofs.IsolatedSources
import MergeConflict.Proofs.PollingCourse

/-!
# A poll among other collectors

A heuristic run is one of any number of collectors on a session. What it does is what its course
lays down, as far as it has come (`Team.Polls`), and if nobody else puts in results of its source,
its part of the pool holds what it has put in.

* `Team.Polls.step`: every step keeps this.
* `Team.Polls.exists_ended`: a run that nobody cancels can come to its end.
* `Team.quitting_run?`: cancelled where it waits, a run does nothing but end.
* `Team.polling_outcome`: all of it from the opening on.
-/

namespace MergeConflict

namespace Team

open HeuristicRun

/-! ## What a member does and is told -/

/-- The answer that a member is told of with an event. -/
def reportOf (b : Nat) : Event → Option (Except Failure Report)
  | .hear i (.report answer) => if i = b then some answer else none
  | _ => none

/-- The answers that a member is told of, in order. -/
def reportsTo (b : Nat) (events : List Event) : List (Except Failure Report) :=
  events.filterMap (reportOf b)

/-- A member that has heard some answers gets the next ones of a script. -/
def Answers (script : Nat → Except Failure Report) (b heard : Nat) (events : List Event) : Prop :=
  ∀ k answer, (reportsTo b events)[k]? = some answer → answer = script (heard + k)

/-- What a member does with its next move, if it is a heuristic run. -/
def Member.deeds (session : Session) : Member → List Deed
  | ⟨.heuristic policy run, isCancelled⟩ => run.deeds policy isCancelled session
  | _ => []

/-- What a member has waited for once the timer has run, if it is a heuristic run. -/
def Member.rests : Member → List Deed
  | ⟨.heuristic _ run, _⟩ => run.interval?.toList.map .rest
  | _ => []

/-- What a member with a heuristic run does, or has waited for, with an event. -/
def deedsOf (b : Nat) (team : Team) : Event → List Deed
  | .advance i => if i = b then team.members[b]?.toList.flatMap (Member.deeds team.session) else []
  | .hear i (.report answer) => if i = b then [.hear answer] else []
  | .hear i .rested => if i = b then team.members[b]?.toList.flatMap Member.rests else []
  | _ => []

/-- A member moves, or is told something. -/
inductive Own (b : Nat) : Event → Prop
  | advance : Own b (.advance b)
  | hear (news : News) : Own b (.hear b news)

/-- What others than a member put in of a source with an event. -/
def strays (b : Nat) (source : Source) (team : Team) (event : Event) : List Update :=
  if event.member? = some b then [] else (team.updates event).filter (·.source = source)

variable {team next before after : Team} {event : Event} {events : List Event} {b heard : Nat}
  {policy : PollingSettings} {script : Nat → Except Failure Report} {run : HeuristicRun}
  {isCancelled : Bool} {done : List Deed}

theorem reportsTo_report (b : Nat) (answer : Except Failure Report) :
    reportsTo b [.hear b (.report answer)] = [answer] :=
  List.filterMap_cons_some (if_pos rfl)

theorem reportsTo_advance (b : Nat) : reportsTo b [.advance b] = [] :=
  rfl

theorem reportsTo_cancel (b : Nat) : reportsTo b [.cancel b] = [] :=
  rfl

theorem reportsTo_rested (b : Nat) : reportsTo b [.hear b .rested] = [] :=
  rfl

theorem reportsTo_of_ne (apart : event.member? ≠ some b) : reportsTo b [event] = [] := by
  refine List.filterMap_cons_none ?_
  cases event with
  | hear i news =>
    cases news with
    | report answer => exact if_neg fun own => apart (congrArg some own)
    | _ => rfl
  | _ => rfl

theorem reportsTo_append (events more : List Event) :
    reportsTo b (events ++ more) = reportsTo b events ++ reportsTo b more :=
  List.filterMap_append

theorem answers_append {more : List Event} : Answers script b heard (events ++ more) ↔
    Answers script b heard events ∧
      Answers script b (heard + (reportsTo b events).length) more := by
  constructor
  · refine fun all => ⟨fun k answer found => all k answer ?_, fun k answer found => ?_⟩
    · rw [reportsTo_append, List.getElem?_append_left (List.getElem?_eq_some_iff.1 found).1]
      exact found
    · rw [Nat.add_assoc]
      refine all _ answer ?_
      rw [reportsTo_append, List.getElem?_append_right (Nat.le_add_right _ _),
        Nat.add_sub_cancel_left]
      exact found
  · rintro ⟨first, later⟩ k answer found
    rw [reportsTo_append] at found
    rcases Nat.lt_or_ge k (reportsTo b events).length with within | beyond
    · rw [List.getElem?_append_left within] at found
      exact first k answer found
    · rw [List.getElem?_append_right beyond] at found
      have same := later _ answer found
      rwa [Nat.add_assoc, Nat.add_sub_of_le beyond] at same

theorem answers_of_reportsTo_eq_nil (nothing : reportsTo b events = []) :
    Answers script b heard events := by
  intro k answer found
  rw [nothing] at found
  cases found

theorem answers_report : Answers script b heard [.hear b (.report (script heard))] := by
  intro k answer found
  rw [reportsTo_report, List.getElem?_singleton] at found
  split at found
  · next first =>
    cases found
    rw [first, Nat.add_zero]
  · cases found

theorem deedsOf_of_ne (apart : event.member? ≠ some b) : deedsOf b team event = [] := by
  cases event with
  | advance i => exact if_neg fun own => apart (congrArg some own)
  | hear i news =>
    cases news with
    | report answer => exact if_neg fun own => apart (congrArg some own)
    | rested => exact if_neg fun own => apart (congrArg some own)
    | _ => rfl
  | _ => rfl

theorem deedsOf_advance (inside : team.members[b]? = some ⟨.heuristic policy run, isCancelled⟩) :
    deedsOf b team (.advance b) = run.deeds policy isCancelled team.session := by
  rw [deedsOf, if_pos rfl, inside]
  exact List.append_nil _

theorem deedsOf_report (answer : Except Failure Report) :
    deedsOf b team (.hear b (.report answer)) = [.hear answer] :=
  if_pos rfl

theorem deedsOf_rested (inside : team.members[b]? = some ⟨.heuristic policy run, isCancelled⟩) :
    deedsOf b team (.hear b .rested) = run.interval?.toList.map .rest := by
  rw [deedsOf, if_pos rfl, inside]
  exact List.append_nil _

/-! ## A run among others -/

theorem Step.file (step : Step team event next) : next.session.file = team.session.file := by
  cases step with
  | advance inside moved => exact (Worker.advance_moved moved).frame.1
  | _ => rfl

/-- Where nobody else puts in anything of a source, all there is to it comes from the one member. -/
theorem Step.agrees_of_strays {source : Source} (step : Step team event next)
    (apart : event.member? ≠ some b) (quiet : strays b source team event = []) :
    Pool.Agrees source next.session.buffer.pool team.session.buffer.pool := by
  rw [step.pool]
  refine Pool.foldl_commit_agrees (fun update inside same => ?_) _
  rw [strays, if_neg apart, List.filter_eq_nil_iff] at quiet
  exact quiet update inside (decide_eq_true same)

/-- How far a heuristic run has come among the others. -/
structure Polls (before : Team) (b : Nat) (policy : PollingSettings)
    (script : Nat → Except Failure Report) (heard : Nat) (run : HeuristicRun) (isCancelled : Bool)
    (done : List Deed) (team : Team) : Prop where
  inside : team.members[b]? = some ⟨.heuristic policy run, isCancelled⟩
  progress : Progress policy before.session.file.heuristicRequest script heard isCancelled run done
  file : team.session.file = before.session.file
  pool : Pool.Agrees .heuristic team.session.buffer.pool
    ((putsOf done).foldl Pool.commit before.session.buffer.pool)

namespace Polls

/-- The run moves, or is told what it waits for. -/
theorem own (polls : Polls before b policy script heard run isCancelled done team)
    (own : Own b event) (answers : Answers script b heard [event]) (step : Step team event next) :
    ∃ run', Polls before b policy script (heard + (reportsTo b [event]).length) run' isCancelled
      (done ++ deedsOf b team event) next := by
  obtain ⟨inside, progress, file, pool⟩ := polls
  cases step.turn inside with
  | aside apart _ =>
    cases own with
    | advance => exact (apart rfl).elim
    | hear news => exact (apart rfl).elim
  | cancelled _ _ => cases own
  | advanced moved inside' =>
    obtain ⟨⟨run', after⟩, ran, same⟩ := Option.map_eq_some_iff.1 moved
    cases same
    rw [reportsTo_advance, deedsOf_advance inside]
    refine ⟨run', inside', progress.advance (congrArg _ file) ran, step.file.trans file, ?_⟩
    rw [step.pool, updates, inside, putsOf_append, putsOf_deeds, List.foldl_append]
    exact pool.foldl_commit run.updates
  | @told news worker _ told session inside' =>
    cases news with
    | report answer =>
      obtain rfl : answer = script heard := answers 0 answer (by rw [reportsTo_report]; rfl)
      obtain ⟨run', received, rfl⟩ := Option.map_eq_some_iff.1 told
      rw [reportsTo_report, deedsOf_report]
      refine ⟨run', inside', progress.receive received, step.file.trans file, ?_⟩
      rw [session, putsOf_append]
      exact (List.append_nil (putsOf done)).symm ▸ pool
    | rested =>
      obtain ⟨run', woken, rfl⟩ := Option.map_eq_some_iff.1 told
      rw [reportsTo_rested, deedsOf_rested inside]
      refine ⟨run', inside', progress.wake woken, step.file.trans file, ?_⟩
      rw [session, putsOf_append, putsOf_rests]
      exact (List.append_nil (putsOf done)).symm ▸ pool
    | _ => cases told
  | started _ _ _ => cases own

theorem step (polls : Polls before b policy script heard run isCancelled done team)
    (answers : Answers script b heard [event]) (quiet : strays b .heuristic team event = [])
    (step : Step team event next) :
    ∃ run' isCancelled', Polls before b policy script (heard + (reportsTo b [event]).length) run'
      isCancelled' (done ++ deedsOf b team event) next := by
  cases step.turn polls.inside with
  | aside apart inside =>
    rw [reportsTo_of_ne apart, deedsOf_of_ne apart, List.append_nil]
    exact ⟨run, isCancelled, inside, polls.progress, step.file.trans polls.file,
      (step.agrees_of_strays apart quiet).trans polls.pool⟩
  | cancelled session inside =>
    rw [reportsTo_cancel]
    refine ⟨run, true, inside, ?_, step.file.trans polls.file, ?_⟩
    · exact (List.append_nil done).symm ▸ polls.progress.cancel
    · exact session ▸ (List.append_nil done).symm ▸ polls.pool
  | advanced _ _ =>
    obtain ⟨run', polls⟩ := polls.own .advance answers step
    exact ⟨run', _, polls⟩
  | told _ _ _ _ =>
    obtain ⟨run', polls⟩ := polls.own (.hear _) answers step
    exact ⟨run', _, polls⟩
  | started began _ _ => cases began

theorem run? (polls : Polls before b policy script heard run isCancelled done team)
    (answers : Answers script b heard events) (quiet : team.trace (strays b .heuristic) events = [])
    (reached : team.run? events = some after) :
    ∃ run' isCancelled', Polls before b policy script (heard + (reportsTo b events).length) run'
      isCancelled' (done ++ team.trace (deedsOf b) events) after := by
  induction events generalizing team heard run isCancelled done with
  | nil =>
    cases reached
    rw [trace, List.append_nil]
    exact ⟨run, isCancelled, polls⟩
  | cons event events ih =>
    obtain ⟨between, step, reached⟩ := run?_cons_eq_some_iff.1 reached
    rw [trace_cons_of_step step, List.append_eq_nil_iff] at quiet
    rw [← List.singleton_append, answers_append] at answers
    obtain ⟨_, _, polls⟩ := polls.step answers.1 quiet.1 step
    rw [trace_cons_of_step step, ← List.append_assoc, ← List.singleton_append, reportsTo_append,
      List.length_append, ← Nat.add_assoc]
    exact ih polls answers.2 quiet.2 reached

theorem length_le (polls : Polls before b policy script heard run false done team) :
    done.length ≤ (course policy before.session.file.heuristicRequest script).length := by
  cases polls.progress with
  | underway split stands =>
    rw [← split, List.length_append]
    exact Nat.le_add_right _ _
  | finished last => exact Nat.le_refl _

/-- Unless it is at its end, a run that nobody cancels can go on. -/
theorem exists_step (polls : Polls before b policy script heard run false done team)
    (goesOn : ∀ result, run ≠ .ended result) :
    ∃ event next, Own b event ∧ Answers script b heard [event] ∧ Step team event next ∧
      deedsOf b team event ≠ [] := by
  cases polls.progress with
  | finished last => exact (goesOn _ rfl).elim
  | underway split stands =>
    rcases stands.exists_move team.session with ⟨run', session, moved, does⟩ | ⟨run', told⟩ |
      ⟨run', interval, woken, rests⟩
    · have moves : (Worker.heuristic policy run).advance false team.session =
          some (.heuristic policy run', session) := Option.map_eq_some_iff.2 ⟨_, moved, rfl⟩
      refine ⟨_, _, .advance, answers_of_reportsTo_eq_nil (reportsTo_advance b),
        .advance polls.inside moves, ?_⟩
      rwa [deedsOf_advance polls.inside]
    · have hears : (Worker.heuristic policy run).hear (.report (script heard)) =
          some (.heuristic policy run') := Option.map_eq_some_iff.2 ⟨_, told, rfl⟩
      refine ⟨_, _, .hear _, answers_report, .hear polls.inside rfl hears, ?_⟩
      rw [deedsOf_report]
      exact List.cons_ne_nil _ _
    · have hears : (Worker.heuristic policy run).hear .rested = some (.heuristic policy run') :=
        Option.map_eq_some_iff.2 ⟨_, woken, rfl⟩
      refine ⟨_, _, .hear _, answers_of_reportsTo_eq_nil (reportsTo_rested b),
        .hear polls.inside rfl hears, ?_⟩
      rw [deedsOf_rested polls.inside, rests]
      exact List.cons_ne_nil _ _

/-- From wherever it stands a run that nobody cancels can come to its end. -/
theorem exists_ended (polls : Polls before b policy script heard run false done team) :
    ∃ events after result, (∀ event ∈ events, Own b event) ∧ Answers script b heard events ∧
      team.run? events = some after ∧
      Polls before b policy script (heard + (reportsTo b events).length) (.ended result) false
        (done ++ team.trace (deedsOf b) events) after := by
  -- with each step of its own the run does something, and no more than its course
  induction left : (course policy before.session.file.heuristicRequest script).length -
    done.length using Nat.strong_induction_on generalizing team heard run done with
  | _ n ih =>
    by_cases ended : ∃ result, run = .ended result
    · obtain ⟨result, rfl⟩ := ended
      refine ⟨[], team, result, List.forall_mem_nil _, answers_of_reportsTo_eq_nil rfl, rfl, ?_⟩
      exact (List.append_nil done).symm ▸ polls
    · obtain ⟨event, next, own, answers, step, does⟩ :=
        polls.exists_step fun result same => ended ⟨result, same⟩
      obtain ⟨run', polls'⟩ := polls.own own answers step
      have grows : done.length < (done ++ deedsOf b team event).length := by
        rw [List.length_append]
        exact Nat.lt_add_of_pos_right (List.length_pos_iff.2 does)
      have within := polls'.length_le
      obtain ⟨events, after, result, owns, later, reached, polls''⟩ := ih _ (by omega) polls' rfl
      refine ⟨event :: events, after, result, List.forall_mem_cons.2 ⟨own, owns⟩, ?_,
        run?_cons_eq_some_iff.2 ⟨next, step, reached⟩, ?_⟩
      · rw [← List.singleton_append]
        exact answers_append.2 ⟨answers, later⟩
      · rw [trace_cons_of_step step, ← List.append_assoc, ← List.singleton_append,
          reportsTo_append, List.length_append, ← Nat.add_assoc]
        exact polls''

end Polls

/-! ## From the opening to the end -/

/-- A run that is cancelled where it waits makes one more move, which ends it. Nothing more of its
source comes into the pool. -/
theorem quitting_run? {ahead : List Deed} (quitting : Quitting run ahead)
    (inside : team.members[b]? = some ⟨.heuristic policy run, true⟩)
    (quiet : team.trace (strays b .heuristic) events = [])
    (reached : team.run? events = some after) :
    team.trace (deedsOf b) events <+: ahead ∧
      Pool.Agrees .heuristic after.session.buffer.pool team.session.buffer.pool := by
  induction events generalizing team run ahead with
  | nil =>
    cases reached
    exact ⟨List.nil_prefix, Pool.Agrees.refl _ _⟩
  | cons event events ih =>
    obtain ⟨between, step, later⟩ := run?_cons_eq_some_iff.1 reached
    rw [trace_cons_of_step step, List.append_eq_nil_iff] at quiet
    rw [trace_cons_of_step step]
    cases step.turn inside with
    | aside apart inside' =>
      obtain ⟨part, agrees⟩ := ih quitting inside' quiet.2 later
      rw [deedsOf_of_ne apart]
      exact ⟨part, agrees.trans (step.agrees_of_strays apart quiet.1)⟩
    | cancelled session inside' =>
      obtain ⟨part, agrees⟩ := ih quitting inside' quiet.2 later
      exact ⟨part, session ▸ agrees⟩
    | advanced moved inside' =>
      obtain ⟨⟨run', session⟩, ran, same⟩ := Option.map_eq_some_iff.1 moved
      cases same
      cases quitting with
      | waits waits =>
        rw [deedsOf_advance inside, deeds_of_waits waits]
        rw [advance_of_waits waits] at ran
        obtain ⟨rfl, still⟩ := Prod.mk.inj (Option.some.inj ran)
        obtain ⟨part, agrees⟩ := ih .ended inside' quiet.2 later
        rw [List.prefix_nil.1 part]
        exact ⟨List.prefix_rfl, still ▸ agrees⟩
      | ended => cases ran
    | told running _ _ _ => cases running
    | started began _ _ => cases began

/-- What a heuristic run does among others, if nobody else puts in results of its source and the
engine answers as a script says. It follows its course, and nobody but it changes its part of the
pool. Unless it is cancelled it can come to its end, and at its end it leaves what the first answer
says that is final, or else that it is out of attempts. Cancelled where it waits, it ends with its
next move and leaves everything as it is. -/
theorem polling_outcome (fresh : before.members[b]? = some ⟨.heuristic policy .opening, false⟩)
    (answers : Answers script b 0 events)
    (quiet : before.trace (strays b .heuristic) events = [])
    (reached : before.run? events = some after) :
    let request := before.session.file.heuristicRequest
    let plan := course policy request script
    let done := before.trace (deedsOf b) events
    ∃ run isCancelled, after.members[b]? = some ⟨.heuristic policy run, isCancelled⟩ ∧
      Pool.Agrees .heuristic after.session.buffer.pool
        ((putsOf done).foldl Pool.commit before.session.buffer.pool) ∧
      (∃ calls ≤ policy.attempts, asksOf done = List.replicate calls request) ∧
      (done <+: plan ∨ isCancelled = true ∧ run = .ended (.error .cancelled) ∧
        ∃ part, part <+: plan ∧ done = part ++ [.finish (.error .cancelled)]) ∧
      (∀ result, run = .ended result →
        isCancelled = true ∧ result = .error .cancelled ∨
        ∃ calls, Completes policy request script calls done result after.session.buffer.pool) ∧
      (isCancelled = false → ∃ more last result calls, (∀ event ∈ more, Own b event) ∧
        Answers script b 0 (events ++ more) ∧ after.run? more = some last ∧
        last.members[b]? = some ⟨.heuristic policy (.ended result), false⟩ ∧
        Completes policy request script calls (done ++ after.trace (deedsOf b) more) result
          last.session.buffer.pool) ∧
      (isCancelled = true → run.waits = true →
        (∃ next, after.step? (.advance b) = some next ∧ next.session = after.session ∧
          next.members[b]? = some ⟨.heuristic policy (.ended (.error .cancelled)), true⟩) ∧
        ∀ more last, after.trace (strays b .heuristic) more = [] → after.run? more = some last →
          after.trace (deedsOf b) more <+: [.finish (.error .cancelled)] ∧
          Pool.Agrees .heuristic last.session.buffer.pool after.session.buffer.pool) := by
  intro request plan done
  have first : Polls before b policy script 0 .opening false [] before :=
    ⟨fresh, .underway rfl .opening, rfl, Pool.Agrees.refl _ _⟩
  obtain ⟨run, isCancelled, polls⟩ := first.run? answers quiet reached
  rw [List.nil_append] at polls
  refine ⟨run, isCancelled, polls.inside, polls.pool, polls.progress.exists_asksOf, ?_, ?_, ?_, ?_⟩
  · exact polls.progress.done_cases
  · rintro result rfl
    exact polls.progress.completes polls.pool
  · rintro rfl
    obtain ⟨more, last, result, own, answers', reached', polls'⟩ := polls.exists_ended
    rcases polls'.progress.completes polls'.pool with ⟨cancelled, -⟩ | ⟨calls, completes⟩
    · cases cancelled
    · exact ⟨more, last, result, calls, own, answers_append.2 ⟨answers, answers'⟩, reached',
        polls'.inside, completes⟩
  · rintro rfl waits
    have moves : (Worker.heuristic policy run).advance true after.session =
        some (.heuristic policy (.ended (.error .cancelled)), after.session) :=
      Option.map_eq_some_iff.2 ⟨_, advance_of_waits waits _, rfl⟩
    have step := Step.advance polls.inside moves
    refine ⟨⟨_, step?_eq_some_iff.2 step, rfl, ?_⟩, fun more last quiet' reached' => ?_⟩
    · exact List.getElem?_set_self (List.getElem?_eq_some_iff.1 polls.inside).1
    · exact quitting_run? (.waits waits) polls.inside quiet' reached'

/-- An answer that is not final, and then one that is. -/
def secondFinal (k : Nat) : Except Failure Report :=
  .ok (if k = 0 then ⟨true, [], none, false⟩ else ⟨false, [], some ["x"], false⟩)

def secondFinalEvents : List Event :=
  [.advance 0, .advance 0, .hear 0 (.report (secondFinal 0)), .advance 0, .hear 0 .rested,
    .advance 0, .hear 0 (.report (secondFinal 1)), .advance 0]

/-- Two calls, and the merged reference of the second answer. -/
theorem secondFinal_outcome : ∃ before after : Team,
    (ofSession oneBlock).run? [.enter (.heuristic ⟨2, 5000⟩ .opening)] = some before ∧
    before.run? secondFinalEvents = some after ∧
    after.members = [⟨.heuristic ⟨2, 5000⟩ (.ended (.ok ())), false⟩] ∧
    Completes ⟨2, 5000⟩ FileContext.blank.heuristicRequest secondFinal 2
      (before.trace (deedsOf 0) secondFinalEvents) (.ok ()) after.session.buffer.pool := by
  obtain ⟨before, after, entered, fresh, file, reached, members, ended, quiet, asks⟩ :
      ∃ before after : Team,
        (ofSession oneBlock).run? [.enter (.heuristic ⟨2, 5000⟩ .opening)] = some before ∧
        before.members[0]? = some ⟨.heuristic ⟨2, 5000⟩ .opening, false⟩ ∧
        before.session.file = FileContext.blank ∧
        before.run? secondFinalEvents = some after ∧
        after.members = [⟨.heuristic ⟨2, 5000⟩ (.ended (.ok ())), false⟩] ∧
        after.members[0]? = some ⟨.heuristic ⟨2, 5000⟩ (.ended (.ok ())), false⟩ ∧
        before.trace (strays 0 .heuristic) secondFinalEvents = [] ∧
        (asksOf (before.trace (deedsOf 0) secondFinalEvents)).length = 2 :=
    ⟨_, _, rfl, rfl, rfl, rfl, rfl, rfl, rfl, rfl⟩
  have answers : Answers secondFinal 0 0 secondFinalEvents := by
    rintro (_ | _ | k) answer found
    · exact (Option.some.inj found).symm
    · exact (Option.some.inj found).symm
    · cases found
  obtain ⟨run, isCancelled, inside, -, -, -, ends, -, -⟩ :=
    polling_outcome fresh answers quiet reached
  cases inside.symm.trans ended
  rcases ends _ rfl with ⟨cancelled, -⟩ | ⟨calls, completes⟩
  · cases cancelled
  · obtain rfl : 2 = calls := by
      rw [← asks, completes.asks, List.length_replicate]
    exact ⟨before, after, entered, reached, members, file ▸ completes⟩

end Team

end MergeConflict
