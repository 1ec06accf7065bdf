import MergeConflict.Proofs.CancelledRuns
import MergeConflict.Proofs.LabelVerdicts

/-!
# What a label run leaves behind

When nobody else touches its source, a label run that comes to its end leaves of each prediction
exactly what the prediction leaves on its own. The run counts the candidates that it has put in; of
those for one block the one that was put in last stays.

* `Team.exists_labels_run`: the tasks can finish in any order.
* `Team.labels_outcome`: what a run leaves behind.
-/

namespace MergeConflict

/-! ## A label run among others -/

/-- The notices of a source, in order. -/
def Session.noticesFrom (session : Session) (source : Source) : List Notice :=
  session.notices.filter (·.source = some source)

theorem Session.commitAll_notices (session : Session) (updates : List Update) :
    (session.commitAll updates).notices = session.notices := by
  induction updates generalizing session with
  | nil => rfl
  | cons update updates ih => exact ih (session.commit update)

theorem Session.Moved.rooted {session after : Session} {updates : List Update}
    {lines : List String} {algorithm : Algorithm} (moved : session.Moved updates after)
    (rooted : session.buffer.Rooted lines algorithm) : after.buffer.Rooted lines algorithm := by
  rcases moved with rfl | ⟨-, notice, rfl⟩
  · induction updates generalizing session with
    | nil => exact rooted
    | cons update updates ih => exact @ih (session.commit update) (rooted.move (.commit update))
  · exact rooted

theorem HeuristicRun.notices_advance {policy : PollingSettings} {cancelled : Bool}
    {session after : Session} {run next : HeuristicRun}
    (moved : run.advance policy cancelled session = some (next, after)) :
    after.notices = session.notices := by
  cases run with
  | holding attempt answer =>
    cases answer with
    | _ => cases moved; rfl
  | waiting attempt => cases cancelled <;> cases moved; rfl
  | resting attempt interval => cases cancelled <;> cases moved; rfl
  | ended result => cases moved
  | _ => cases moved; rfl

theorem HistoryRun.notices_advance {cancelled : Bool} {session after : Session}
    {run next : HistoryRun} (moved : run.advance cancelled session = some (next, after)) :
    after.notices = session.notices := by
  cases run with
  | asking => cases moved; rfl
  | waiting => cases cancelled <;> cases moved; rfl
  | holding answer =>
    rcases advance_moved moved with same | ⟨nothing, -⟩
    · rw [same, Session.commitAll_notices]
    · cases answer with
      | ok records =>
        cases moved
        have none : records = [] := by simpa [updates] using nothing
        rw [none]
        rfl
      | error failure => cases moved; rfl
  | ended result => cases moved

theorem ScriptRun.notices_advance {cancelled : Bool} {session after : Session}
    {run next : ScriptRun} (moved : run.advance cancelled session = some (next, after)) :
    after.notices = session.notices ∨
      ∃ message, after.notices = session.notices ++ [.warning .editScript message] := by
  cases run with
  | joining batch tasks count =>
    rw [advance] at moved
    split at moved
    · cases moved; exact .inl rfl
    · split at moved
      · cases moved; exact .inl rfl
      · cases moved
  | joined batch block result tasks count =>
    cases result with
    | ok outcome => cases moved; exact .inl rfl
    | error failure => cases moved; exact .inr ⟨_, rfl⟩
  | ended result => cases moved
  | _ => cases moved; exact .inl rfl

namespace Worker

variable {worker next : Worker} {cancelled : Bool} {session after : Session}

/-- Only a label run gives the notices of the classifier. -/
theorem noticesFrom_advance (foreign : worker.source ≠ .classifier)
    (moved : worker.advance cancelled session = some (next, after)) :
    after.noticesFrom .classifier = session.noticesFrom .classifier := by
  cases advances_of_advance moved with
  | heuristic ran => exact congrArg _ (HeuristicRun.notices_advance ran)
  | labels ran => exact (foreign rfl).elim
  | scripts ran =>
    rcases ScriptRun.notices_advance ran with same | ⟨message, told⟩
    · exact congrArg _ same
    · rw [Session.noticesFrom, told, List.filter_append]
      exact List.append_nil _
  | history ran => exact congrArg _ (HistoryRun.notices_advance ran)

end Worker

namespace Team

variable {team next before after : Team} {event : Event} {events : List Event} {b : Nat}
  {hasCombiner isCancelled : Bool} {lines : List String} {guesses : List Guess}
  {finished : List Errand} {run : LabelRun}

theorem Step.rooted (step : Step team event next) {algorithm : Algorithm}
    (rooted : team.session.buffer.Rooted lines algorithm) :
    next.session.buffer.Rooted lines algorithm := by
  cases step with
  | advance inside moved => exact (Worker.advance_moved moved).rooted rooted
  | move move => exact rooted.move move
  | _ => exact rooted

/-- All members of a source but one are at their ends. -/
def OthersEnded (team : Team) (b : Nat) (source : Source) : Prop :=
  ∀ i member, team.Other b source i member → member.worker.hasEnded = true

/-- Who is at its end stays there. -/
theorem OthersEnded.step {source : Source} (others : team.OthersEnded b source)
    (fresh : ∀ worker, event = .enter worker → worker.source ≠ source)
    (step : Step team event next) : next.OthersEnded b source := by
  intro i member ⟨inside, apart, same⟩
  rcases step.member_before inside with ⟨old, here, unchanged⟩ | rfl
  · have ended := others i old ⟨here, apart, unchanged.trans same⟩
    cases step.turn here with
    | aside _ still =>
      cases still.symm.trans inside
      exact ended
    | cancelled _ flagged =>
      cases flagged.symm.trans inside
      exact ended
    | advanced moved _ => cases (Worker.advance_of_hasEnded ended).symm.trans moved
    | told _ heard _ _ => cases (Worker.hear_of_hasEnded ended _).symm.trans heard
    | started began _ _ => cases (Worker.start_of_hasEnded ended _).symm.trans began
  · exact (fresh _ rfl same).elim

/-- The engines answer a label run as the guesses say, and nobody else touches its source. -/
structure Event.Serves (b : Nat) (guesses : List Guess) (errands : List Errand) (event : Event) :
    Prop where
  leaves : event.Leaves .classifier
  quiet : ∀ notice, event = .notify notice → notice.source ≠ some .classifier
  predicted : ∀ answer, event = .hear b (.predictions answer) →
    answer = .ok (guesses.map Guess.prediction)
  finished : ∀ id content, event = .hear b (.labelDone id content) →
    ∀ errand ∈ errands, errand.task.id = id → content = errand.outcome

theorem Event.Serves.advance {errands : List Errand} :
    (Event.advance b).Serves b guesses errands where
  leaves := ⟨trivial, fun _ enters => by cases enters⟩
  quiet _ told := by cases told
  predicted _ heard := by cases heard
  finished _ _ heard := by cases heard

theorem Event.Serves.predictions {errands : List Errand} :
    (Event.hear b (.predictions (.ok (guesses.map Guess.prediction)))).Serves b guesses
      errands where
  leaves := ⟨trivial, fun _ enters => by cases enters⟩
  quiet _ told := by cases told
  predicted _ heard := by
    cases heard
    rfl
  finished _ _ heard := by cases heard

theorem Event.Serves.labelDone {errands : List Errand} {id : Nat}
    {content : Option (Except Failure String)}
    (told : ∀ errand ∈ errands, errand.task.id = id → content = errand.outcome) :
    (Event.hear b (.labelDone id content)).Serves b guesses errands where
  leaves := ⟨trivial, fun _ enters => by cases enters⟩
  quiet _ told := by cases told
  predicted _ heard := by cases heard
  finished _ _ heard := by
    cases heard
    exact told

/-- How far a label run has come among the others. -/
structure Course (before : Team) (b : Nat) (hasCombiner : Bool) (lines : List String)
    (guesses : List Guess) (finished : List Errand) (run : LabelRun) (isCancelled : Bool)
    (team : Team) : Prop where
  inside : team.members[b]? = some ⟨.labels hasCombiner run, isCancelled⟩
  stage : ∃ warned, LabelRun.Stage hasCombiner lines guesses finished run
      team.session.buffer.pool.labels warned ∧
    team.session.noticesFrom .classifier = before.session.noticesFrom .classifier ++ warned
  others : team.OthersEnded b .classifier
  rooted : ∃ algorithm, team.session.buffer.Rooted lines algorithm

namespace Course

/-- The next move of the run. -/
theorem advance
    (course : Course before b hasCombiner lines guesses finished run isCancelled team)
    (step : Step team (.advance b) next) :
    ∃ run', run.advance hasCombiner isCancelled team.session = some (run', next.session) ∧
      Course before b hasCombiner lines guesses finished run' isCancelled next := by
  obtain ⟨inside, ⟨warned, stage, notices⟩, others, algorithm, rooted⟩ := course
  cases step.turn inside with
  | aside apart _ => exact (apart rfl).elim
  | advanced moved inside' =>
    obtain ⟨⟨run', after⟩, ran, same⟩ := Option.map_eq_some_iff.1 moved
    cases same
    obtain ⟨more, stage', told, own⟩ := stage.advance rfl rooted ran
    refine ⟨run', ran, inside', ⟨warned ++ more, stage', ?_⟩,
      others.step (fun _ enters => by cases enters) step, algorithm, step.rooted rooted⟩
    have all : more.filter (·.source = some .classifier) = more :=
      List.filter_eq_self.2 fun notice inside => decide_eq_true (own notice inside)
    rw [Session.noticesFrom, told, List.filter_append, all, ← List.append_assoc]
    exact congrArg (· ++ more) notices

/-- The classifier answers the run. -/
theorem receive {answer : Except Failure (List Prediction)}
    (course : Course before b hasCombiner lines guesses finished run isCancelled team)
    (told : answer = .ok (guesses.map Guess.prediction))
    (step : Step team (.hear b (.predictions answer)) next) :
    ∃ run', run.receive answer = some run' ∧
      Course before b hasCombiner lines guesses finished run' isCancelled next := by
  obtain ⟨inside, ⟨warned, stage, notices⟩, others, algorithm, rooted⟩ := course
  cases step.turn inside with
  | aside apart _ => exact (apart rfl).elim
  | told _ heard session inside' =>
    obtain ⟨run', received, rfl⟩ := Option.map_eq_some_iff.1 heard
    refine ⟨run', received, inside', ⟨warned, ?_, ?_⟩,
      others.step (fun _ enters => by cases enters) step, algorithm, step.rooted rooted⟩
    · rw [session]
      exact stage.receive received told
    · rw [session]
      exact notices

/-- A task of the run finishes. -/
theorem join {id : Nat} {content : Option (Except Failure String)}
    (course : Course before b hasCombiner lines guesses finished run isCancelled team)
    (told : ∀ errand ∈ LabelRun.errands hasCombiner lines guesses, errand.task.id = id →
      content = errand.outcome)
    (step : Step team (.hear b (.labelDone id content)) next) :
    ∃ run' errand, run.join id content = some run' ∧
      errand ∈ LabelRun.errands hasCombiner lines guesses ∧ errand.task.id = id ∧
      Course before b hasCombiner lines guesses (finished ++ [errand]) run' isCancelled next := by
  obtain ⟨inside, ⟨warned, stage, notices⟩, others, algorithm, rooted⟩ := course
  cases step.turn inside with
  | aside apart _ => exact (apart rfl).elim
  | told _ heard session inside' =>
    obtain ⟨run', joined, rfl⟩ := Option.map_eq_some_iff.1 heard
    obtain ⟨errand, known, idOf, stage'⟩ := stage.join joined told
    refine ⟨run', errand, joined, known, idOf, inside', ⟨warned, ?_, ?_⟩,
      others.step (fun _ enters => by cases enters) step, algorithm, step.rooted rooted⟩
    · rw [session]
      exact stage'
    · rw [session]
      exact notices

/-- Any other step. -/
theorem aside
    (course : Course before b hasCombiner lines guesses finished run isCancelled team)
    (serves : event.Serves b guesses (LabelRun.errands hasCombiner lines guesses))
    (step : Step team event next) (apart : event.member? ≠ some b)
    (inside : next.members[b]? = some ⟨.labels hasCombiner run, isCancelled⟩) :
    Course before b hasCombiner lines guesses finished run isCancelled next := by
  obtain ⟨_, ⟨warned, stage, notices⟩, others, algorithm, rooted⟩ := course
  have foreign (i : Nat) (member : Member) (advances : event = .advance i)
      (here : team.members[i]? = some member) : member.worker.source ≠ .classifier := by
    intro same
    have ended := others i member
      ⟨here, fun own => apart (by rw [advances, own]; rfl), same⟩
    subst advances
    cases step with
    | advance here' moved =>
      cases here'.symm.trans here
      cases (Worker.advance_of_hasEnded ended).symm.trans moved
  have labels : next.session.buffer.pool.labels = team.session.buffer.pool.labels :=
    step.agrees serves.leaves.1 foreign
  have same : next.session.noticesFrom .classifier = team.session.noticesFrom .classifier := by
    cases step with
    | @advance i member _ _ here moved =>
      exact Worker.noticesFrom_advance (foreign i member rfl here) moved
    | notify notice =>
      have silent := decide_eq_false (serves.quiet notice rfl)
      rw [Session.noticesFrom, Session.notify, List.filter_append, List.filter_singleton, silent]
      exact List.append_nil _
    | _ => rfl
  exact ⟨inside, ⟨warned, labels ▸ stage, same.trans notices⟩,
    others.step serves.leaves.2 step, algorithm, step.rooted rooted⟩

theorem step
    (course : Course before b hasCombiner lines guesses finished run isCancelled team)
    (serves : event.Serves b guesses (LabelRun.errands hasCombiner lines guesses))
    (step : Step team event next) :
    ∃ finished' run' isCancelled',
      Course before b hasCombiner lines guesses finished' run' isCancelled' next := by
  have turn := step.turn course.inside
  cases turn with
  | aside apart inside => exact ⟨_, _, _, course.aside serves step apart inside⟩
  | cancelled session inside =>
    obtain ⟨_, stage, others, algorithm, rooted⟩ := course
    exact ⟨_, _, _, inside, session ▸ stage, others.step serves.leaves.2 step, algorithm,
      step.rooted rooted⟩
  | advanced moved inside =>
    obtain ⟨run', _, course'⟩ := course.advance step
    exact ⟨_, _, _, course'⟩
  | @told news worker _ heard session inside =>
    cases news with
    | labelDone id content =>
      obtain ⟨run', errand, _, _, _, course'⟩ :=
        course.join (serves.finished id content rfl) step
      exact ⟨_, _, _, course'⟩
    | predictions answer =>
      obtain ⟨run', _, course'⟩ := course.receive (serves.predicted answer rfl) step
      exact ⟨_, _, _, course'⟩
    | _ => cases heard
  | @started task worker began session inside =>
    obtain ⟨run', begun, rfl⟩ := Option.map_eq_some_iff.1 began
    obtain ⟨_, ⟨warned, stage, notices⟩, others, algorithm, rooted⟩ := course
    exact ⟨_, _, _, inside, ⟨warned, session ▸ stage.start begun, session ▸ notices⟩,
      others.step serves.leaves.2 step, algorithm, step.rooted rooted⟩

theorem run?
    (course : Course before b hasCombiner lines guesses finished run isCancelled team)
    (served : ∀ event ∈ events, event.Serves b guesses (LabelRun.errands hasCombiner lines guesses))
    (reached : team.run? events = some after) :
    ∃ finished' run' isCancelled',
      Course before b hasCombiner lines guesses finished' run' isCancelled' after := by
  have kept (team : Team) (event : Event) (next : Team)
      (serves : event.Serves b guesses (LabelRun.errands hasCombiner lines guesses))
      (step : Step team event next) :
      (∃ finished run isCancelled,
        Course before b hasCombiner lines guesses finished run isCancelled team) →
      ∃ finished run isCancelled,
        Course before b hasCombiner lines guesses finished run isCancelled next :=
    fun ⟨_, _, _, course⟩ => course.step serves step
  exact run?_induction ⟨_, _, _, course⟩ kept served reached

end Course

/-! ## The tasks finish in any order -/

/-- A team is reached by steps that serve a label run. -/
def Leads (b : Nat) (guesses : List Guess) (errands : List Errand) (team next : Team) : Prop :=
  ∃ events : List Event, (∀ event ∈ events, event.Serves b guesses errands) ∧
    team.run? events = some next

theorem Leads.trans {errands : List Errand} (leads : Leads b guesses errands team next)
    (further : Leads b guesses errands next after) : Leads b guesses errands team after := by
  obtain ⟨events, served, reached⟩ := leads
  obtain ⟨more, served', reached'⟩ := further
  refine ⟨events ++ more, fun event inside => ?_, ?_⟩
  · exact (List.mem_append.1 inside).elim (served event) (served' event)
  · rw [run?_append, reached]
    exact reached'

theorem Leads.step {errands : List Errand} (serves : event.Serves b guesses errands)
    (step : Step team event next) : Leads b guesses errands team next := by
  refine ⟨[event], fun other inside => List.mem_singleton.1 inside ▸ serves, ?_⟩
  exact run?_cons_eq_some_iff.2 ⟨next, step, rfl⟩

namespace Course

/-- A move that the run can make. -/
theorem exists_advance {run' : LabelRun} {session : Session}
    (course : Course before b hasCombiner lines guesses finished run false team)
    (moved : run.advance hasCombiner false team.session = some (run', session)) :
    ∃ next, Leads b guesses (LabelRun.errands hasCombiner lines guesses) team next ∧
      Course before b hasCombiner lines guesses finished run' false next := by
  have advances : (Worker.labels hasCombiner run).advance false team.session =
      some (.labels hasCombiner run', session) :=
    Option.map_eq_some_iff.2 ⟨_, moved, rfl⟩
  have step := Step.advance course.inside advances
  obtain ⟨run'', ran, course'⟩ := course.advance step
  cases moved.symm.trans ran
  exact ⟨_, .step .advance step, course'⟩

/-- The classifier can answer. -/
theorem exists_predictions
    (course : Course before b hasCombiner lines guesses finished .waiting false team) :
    ∃ next, Leads b guesses (LabelRun.errands hasCombiner lines guesses) team next ∧
      Course before b hasCombiner lines guesses finished
        (.holding (.ok (guesses.map Guess.prediction))) false next := by
  have hears : (Worker.labels hasCombiner .waiting).hear
      (.predictions (.ok (guesses.map Guess.prediction))) =
      some (.labels hasCombiner (.holding (.ok (guesses.map Guess.prediction)))) :=
    rfl
  have step := Step.hear course.inside rfl hears
  obtain ⟨_, received, course'⟩ := course.receive rfl step
  cases received
  exact ⟨_, .step .predictions step, course'⟩

/-- A task of the run can finish with what it comes to. -/
theorem exists_told {run' : LabelRun} {tasks : List LabelTask} {count : Nat} {errand : Errand}
    (course : Course before b hasCombiner lines guesses finished (.joining tasks count) false team)
    (known : errand ∈ LabelRun.errands hasCombiner lines guesses)
    (joined : (LabelRun.joining tasks count).join errand.task.id errand.outcome = some run') :
    ∃ next, Leads b guesses (LabelRun.errands hasCombiner lines guesses) team next ∧
      Course before b hasCombiner lines guesses (finished ++ [errand]) run' false next := by
  have unique (other : Errand) (inside : other ∈ LabelRun.errands hasCombiner lines guesses)
      (same : other.task.id = errand.task.id) : other = errand :=
    List.inj_on_of_nodup_map LabelRun.nodup_ids inside known same
  have told (other : Errand) (inside : other ∈ LabelRun.errands hasCombiner lines guesses)
      (same : other.task.id = errand.task.id) : errand.outcome = other.outcome :=
    congrArg Errand.outcome (unique other inside same).symm
  have hears : (Worker.labels hasCombiner (.joining tasks count)).hear
      (.labelDone errand.task.id errand.outcome) = some (.labels hasCombiner run') :=
    Option.map_eq_some_iff.2 ⟨_, joined, rfl⟩
  have step := Step.hear course.inside rfl hears
  obtain ⟨run'', other, joined', inside, same, course'⟩ := course.join told step
  cases joined.symm.trans joined'
  obtain rfl := unique other inside same
  exact ⟨_, .step (.labelDone told) step, course'⟩

/-- A task that has not finished yet can finish. -/
theorem exists_join {tasks : List LabelTask} {count : Nat} {errand : Errand} {left : List Errand}
    (course : Course before b hasCombiner lines guesses finished (.joining tasks count) false team)
    (perm : (finished ++ errand :: left).Perm (LabelRun.errands hasCombiner lines guesses)) :
    ∃ next tasks' count', Leads b guesses (LabelRun.errands hasCombiner lines guesses) team next ∧
      Course before b hasCombiner lines guesses (finished ++ [errand]) (.joining tasks' count')
        false next := by
  have known : errand ∈ LabelRun.errands hasCombiner lines guesses :=
    perm.subset (List.mem_append_right _ List.mem_cons_self)
  obtain ⟨task, found⟩ : ∃ task, tasks.find? (·.id = errand.task.id) = some task := by
    obtain ⟨_, stage, _⟩ := course.stage
    obtain ⟨task, inside, own⟩ := stage.exists_task perm
    exact Option.isSome_iff_exists.1 (List.find?_isSome.2 ⟨task, inside, decide_eq_true own⟩)
  cases outcome : errand.outcome with
  | none =>
    obtain ⟨next, leads, course'⟩ :=
      course.exists_told known (by rw [LabelRun.join, found, outcome])
    exact ⟨next, _, count, leads, course'⟩
  | some content =>
    obtain ⟨between, leads, course'⟩ :=
      course.exists_told known (by rw [LabelRun.join, found, outcome])
    cases content with
    | _ =>
      obtain ⟨next, puts, course''⟩ := course'.exists_advance rfl
      exact ⟨next, _, _, leads.trans puts, course''⟩

/-- From where it waits for its tasks a run can come to its end, whatever the order in which they
finish. -/
theorem exists_ended {tasks : List LabelTask} {count : Nat} {left : List Errand}
    (course : Course before b hasCombiner lines guesses finished (.joining tasks count) false team)
    (perm : (finished ++ left).Perm (LabelRun.errands hasCombiner lines guesses)) :
    ∃ next n, Leads b guesses (LabelRun.errands hasCombiner lines guesses) team next ∧
      Course before b hasCombiner lines guesses (finished ++ left) (.ended (.ok n)) false next := by
  induction left generalizing finished team tasks count with
  | nil =>
    rw [List.append_nil] at perm ⊢
    obtain ⟨_, stage, _⟩ := course.stage
    have ends : (LabelRun.joining tasks count).advance hasCombiner false team.session =
        some (.ended (.ok count), team.session) := by
      rw [stage.tasks_eq_nil perm]
      rfl
    obtain ⟨next, leads, course'⟩ := course.exists_advance ends
    exact ⟨next, count, leads, course'⟩
  | cons errand left ih =>
    obtain ⟨between, tasks', count', leads, course'⟩ := course.exists_join perm
    rw [List.append_cons] at perm ⊢
    obtain ⟨next, n, ends, course''⟩ := ih course' perm
    exact ⟨next, n, leads.trans ends, course''⟩

/-- A run can make its tasks. -/
theorem exists_joining {rest : List Prediction} {tasks : List LabelTask}
    (course : Course before b hasCombiner lines guesses finished (.sorting rest tasks) false team) :
    ∃ next tasks' count, Leads b guesses (LabelRun.errands hasCombiner lines guesses) team next ∧
      Course before b hasCombiner lines guesses finished (.joining tasks' count) false next := by
  induction rest generalizing team tasks with
  | nil =>
    obtain ⟨next, leads, course'⟩ := course.exists_advance rfl
    exact ⟨next, _, _, leads, course'⟩
  | cons prediction rest ih =>
    obtain ⟨between, leads, course'⟩ := course.exists_advance rfl
    obtain ⟨next, tasks', count, sorts, course''⟩ := ih course'
    exact ⟨next, tasks', count, leads.trans sorts, course''⟩

/-- All tasks of a run that is at its end have finished, in some order. -/
theorem exists_finished {n : Nat}
    (course : Course before b hasCombiner lines guesses finished run isCancelled team)
    (served : ∀ event ∈ events, event.Serves b guesses (LabelRun.errands hasCombiner lines guesses))
    (reached : team.run? events = some after) {isCancelled' : Bool}
    (ended : after.members[b]? = some ⟨.labels hasCombiner (.ended (.ok n)), isCancelled'⟩) :
    ∃ finished' warned, finished'.Perm (LabelRun.errands hasCombiner lines guesses) ∧
      n = (LabelRun.earned finished').length ∧
      after.session.buffer.pool.labels = .ofEntries (LabelRun.earned finished') ∧
      warned.Perm
        ((LabelRun.verdicts hasCombiner lines guesses).filterMap Verdict.notice?) ∧
      after.session.noticesFrom .classifier =
        before.session.noticesFrom .classifier ++ warned := by
  obtain ⟨finished', run', _, course'⟩ := course.run? served reached
  cases course'.inside.symm.trans ended
  obtain ⟨warned, stage, notices⟩ := course'.stage
  have labels := stage.labels_eq
  rw [labels] at stage
  cases stage with
  | ended perm =>
    exact ⟨finished', _, perm, rfl, labels,
      ((perm.filterMap _).append_left _).trans (LabelRun.notices_perm _), notices⟩

end Course

/-- The tasks of a run can finish in any order, and the run then comes to its end. -/
theorem exists_labels_run {order : List Errand}
    (fresh : Course before b hasCombiner lines guesses [] .asking false before)
    (perm : order.Perm (LabelRun.errands hasCombiner lines guesses)) :
    ∃ after n, Leads b guesses (LabelRun.errands hasCombiner lines guesses) before after ∧
      Course before b hasCombiner lines guesses order (.ended (.ok n)) false after := by
  have begins : LabelRun.asking.advance hasCombiner false before.session =
      some (.waiting, before.session) := rfl
  obtain ⟨asked, asks, waiting⟩ := fresh.exists_advance begins
  obtain ⟨answered, answers, holding⟩ := waiting.exists_predictions
  obtain ⟨cleared, clears, sorting⟩ := holding.exists_advance rfl
  obtain ⟨sorted, tasks, count, sorts, joining⟩ := sorting.exists_joining
  have all : ([] ++ order).Perm (LabelRun.errands hasCombiner lines guesses) := perm
  obtain ⟨after, n, ends, ended⟩ := joining.exists_ended all
  exact ⟨after, n, asks.trans (answers.trans (clears.trans (sorts.trans ends))), ended⟩

theorem rooted_of_run? {file : FileContext} {algorithm : Algorithm}
    (reached : (ofSession (.ofBuffer file (.ofLines lines algorithm))).run? events = some team) :
    team.session.buffer.Rooted lines algorithm := by
  have kept (before : Team) (event : Event) (after : Team) (_ : True)
      (step : Step before event after) :
      before.session.buffer.Rooted lines algorithm → after.session.buffer.Rooted lines algorithm :=
    step.rooted
  exact run?_induction (Buffer.rooted_ofLines lines algorithm) kept (fun _ _ => trivial) reached

/-- Any candidate that is earned can be the one that stays for its block. -/
theorem exists_run_of_entry {entry : Nat × LabelCandidate}
    (fresh : Course before b hasCombiner lines guesses [] .asking false before)
    (inside : entry ∈ LabelRun.earned (LabelRun.errands hasCombiner lines guesses)) :
    ∃ after n, Leads b guesses (LabelRun.errands hasCombiner lines guesses) before after ∧
      after.members[b]? = some ⟨.labels hasCombiner (.ended (.ok n)), false⟩ ∧
      after.session.buffer.pool.label? entry.1 = some entry.2 := by
  obtain ⟨errand, known, earns⟩ := List.mem_filterMap.1 inside
  obtain ⟨front, behind, split⟩ := List.append_of_mem known
  have perm : (front ++ behind ++ [errand]).Perm (LabelRun.errands hasCombiner lines guesses) := by
    rw [split]
    exact (List.perm_append_singleton ..).trans List.perm_middle.symm
  obtain ⟨after, n, leads, course⟩ := exists_labels_run fresh perm
  refine ⟨after, n, leads, course.inside, ?_⟩
  obtain ⟨_, stage, _⟩ := course.stage
  have labels := stage.labels_eq
  rw [LabelRun.earned_concat, earns, Option.toList_some, Table.ofEntries_concat] at labels
  rw [Pool.label?, labels, Table.get?_insert, if_pos rfl]

/-- A label run that comes to its end leaves of each prediction what the prediction leaves on its
own, and says how many candidates it has put in. Blocks are as many exactly if no two candidates are
for one block. The order in which the tasks finish does not matter exactly if candidates for one
block are the same. -/
theorem labels_outcome {file : FileContext} {algorithm : Algorithm} {history : List Event}
    {n : Nat}
    (loaded : (ofSession (.ofBuffer file (.ofLines lines algorithm))).run? history = some before)
    (fresh : before.members[b]? = some ⟨.labels hasCombiner .asking, false⟩)
    (alone : before.OthersEnded b .classifier)
    (served : ∀ event ∈ events, event.Serves b guesses (LabelRun.errands hasCombiner lines guesses))
    (reached : before.run? events = some after)
    (ended : after.members[b]? = some ⟨.labels hasCombiner (.ended (.ok n)), isCancelled⟩) :
    let verdicts := LabelRun.verdicts hasCombiner lines guesses
    let entries := verdicts.filterMap Verdict.entry?
    let pool := after.session.buffer.pool
    List.Forall₂ (Guess.Judged hasCombiner lines) guesses verdicts ∧
    (∀ block, (pool.label? block).isSome = true ↔ block ∈ entries.map Prod.fst) ∧
    (∀ block candidate, pool.label? block = some candidate → (block, candidate) ∈ entries) ∧
    (∃ warned, warned.Perm (verdicts.filterMap Verdict.notice?) ∧
      after.session.noticesFrom .classifier =
        before.session.noticesFrom .classifier ++ warned) ∧
    n = entries.length ∧
    (pool.labels.length = n ↔ (entries.map Prod.fst).Nodup) ∧
    ((∀ entry ∈ entries, ∀ other ∈ entries, entry.1 = other.1 → entry = other) ↔
      ∀ events' after' n' isCancelled',
        (∀ event ∈ events', event.Serves b guesses (LabelRun.errands hasCombiner lines guesses)) →
        before.run? events' = some after' →
        after'.members[b]? = some ⟨.labels hasCombiner (.ended (.ok n')), isCancelled'⟩ →
        after'.session.buffer.pool.labels = pool.labels) := by
  intro verdicts entries pool
  have first : Course before b hasCombiner lines guesses [] .asking false before :=
    ⟨fresh, ⟨[], .asking, (List.append_nil _).symm⟩, alone, algorithm, rooted_of_run? loaded⟩
  have same : entries = LabelRun.earned (LabelRun.errands hasCombiner lines guesses) :=
    (LabelRun.earned_errandsOf _).symm
  obtain ⟨finished, warned, perm, count, labels, all, notices⟩ :=
    first.exists_finished served reached ended
  have put : (LabelRun.earned finished).Perm entries := same ▸ perm.filterMap _
  refine ⟨LabelRun.judged_assignAll 0 guesses, fun block => ?_, fun block candidate shown => ?_,
    ⟨warned, all, notices⟩, count.trans put.length_eq, ?_, ?_, ?_⟩
  · rw [Pool.label?, labels, Table.isSome_get?_ofEntries_iff, (put.map Prod.fst).mem_iff]
  · rw [Pool.label?, labels] at shown
    exact put.mem_iff.1 (Table.mem_of_get?_ofEntries shown)
  · rw [labels, count, Table.length_ofEntries_eq_iff, (put.map Prod.fst).nodup_iff]
  · intro agree events' after' n' isCancelled' served' reached' ended'
    obtain ⟨finished', _, perm', _, labels', _⟩ :=
      first.exists_finished served' reached' ended'
    have put' : (LabelRun.earned finished').Perm entries := same ▸ perm'.filterMap _
    rw [labels, labels', Table.ofEntries_eq_of_perm agree put,
      Table.ofEntries_eq_of_perm agree put']
  · intro settled entry inside other inside' block
    have stays (entry : Nat × LabelCandidate) (inside : entry ∈ entries) :
        pool.label? entry.1 = some entry.2 := by
      obtain ⟨after', n', ⟨events', served', reached'⟩, ended', shown⟩ :=
        exists_run_of_entry first (same ▸ inside)
      rwa [Pool.label?, settled events' after' n' false served' reached' ended'] at shown
    have shown := (stays entry inside).symm
    rw [block, stays other inside', Option.some.injEq] at shown
    exact Prod.ext block shown

/-- A label for the one block, and one for a block that there is not. -/
def oneOfTwo : List Guess :=
  [⟨⟨0, "V1", .zero⟩, none⟩, ⟨⟨7, "V1", .zero⟩, none⟩]

def oneOfTwoEvents : List Event :=
  [.advance 0, .hear 0 (.predictions (.ok (oneOfTwo.map Guess.prediction))), .advance 0, .advance 0,
    .advance 0, .advance 0, .hear 0 (.labelDone 0 (some (.ok "a"))), .advance 0, .advance 0]

/-- The one becomes a candidate and is counted, the other a warning. -/
theorem oneOfTwo_outcome : ∃ before after : Team,
    (ofSession oneBlock).run? [.enter (.labels false .asking)] = some before ∧
    before.run? oneOfTwoEvents = some after ∧
    after.members = [⟨.labels false (.ended (.ok 1)), false⟩] ∧
    after.session.buffer.pool.labels.length = 1 ∧
    after.session.noticesFrom .classifier =
      [.warning .classifier "block 8 out of range (1 blocks)"] := by
  obtain ⟨before, after, entered, others, fresh, reached, members, ended, first⟩ :
      ∃ before after : Team,
        (ofSession oneBlock).run? [.enter (.labels false .asking)] = some before ∧
        (∀ i, before.members[i + 1]? = none) ∧
        before.members[0]? = some ⟨.labels false .asking, false⟩ ∧
        before.run? oneOfTwoEvents = some after ∧
        after.members = [⟨.labels false (.ended (.ok 1)), false⟩] ∧
        after.members[0]? = some ⟨.labels false (.ended (.ok 1)), false⟩ ∧
        before.session.noticesFrom .classifier = [] :=
    ⟨_, _, rfl, fun _ => rfl, rfl, rfl, rfl, rfl, rfl⟩
  have alone : before.OthersEnded 0 .classifier := by
    rintro (_ | i) member ⟨inside, apart, -⟩
    · exact (apart rfl).elim
    · cases (others i).symm.trans inside
  have errands : LabelRun.errands false oneBlock.buffer.loaded oneOfTwo =
      [⟨⟨0, 1, .ours, .zero, .done (.ok "a")⟩, some (.ok "a")⟩] := rfl
  have told : ∀ errand ∈ LabelRun.errands false oneBlock.buffer.loaded oneOfTwo,
      errand.task.id = 0 → some (.ok "a") = errand.outcome := by
    rw [errands]
    simp
  have served : ∀ event ∈ oneOfTwoEvents,
      event.Serves 0 oneOfTwo (LabelRun.errands false oneBlock.buffer.loaded oneOfTwo) := by
    simp only [oneOfTwoEvents, List.forall_mem_cons]
    exact ⟨.advance, .predictions, .advance, .advance, .advance, .advance, .labelDone told,
      .advance, .advance, List.forall_mem_nil _⟩
  obtain ⟨-, -, -, ⟨warned, perm, notices⟩, -, length, -⟩ :=
    labels_outcome entered fresh alone served reached ended
  refine ⟨before, after, entered, reached, members, length.2 (List.nodup_singleton 1), ?_⟩
  rw [notices, first]
  exact List.perm_singleton.1 perm

/-- Two labels for one block: the run counts two candidates, and there is one, that of the task
that has finished last. -/
theorem repeated_block_counted_twice : ∃ before first second : Team,
    (ofSession oneBlock).run? [.enter (.labels false .asking), .advance 0,
      .hear 0 (.predictions (.ok [⟨0, "V1", .zero⟩, ⟨0, "V2", .zero⟩])), .advance 0, .advance 0,
      .advance 0, .advance 0] = some before ∧
    before.run? [.hear 0 (.labelDone 0 (some (.ok "a"))), .advance 0,
      .hear 0 (.labelDone 1 (some (.ok "b"))), .advance 0, .advance 0] = some first ∧
    before.run? [.hear 0 (.labelDone 1 (some (.ok "b"))), .advance 0,
      .hear 0 (.labelDone 0 (some (.ok "a"))), .advance 0, .advance 0] = some second ∧
    first.members = [⟨.labels false (.ended (.ok 2)), false⟩] ∧
    second.members = [⟨.labels false (.ended (.ok 2)), false⟩] ∧
    first.session.buffer.pool.labels = [(1, ⟨.theirs, .zero, "b"⟩)] ∧
    second.session.buffer.pool.labels = [(1, ⟨.ours, .zero, "a"⟩)] :=
  ⟨_, _, _, rfl, rfl, rfl, rfl, rfl, rfl, rfl⟩

end Team

end MergeConflict
