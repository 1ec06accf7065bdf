import MergeConflict.Proofs.IsolatedSources

/-!
# The report of a fetch

A fetch that nobody cancels runs its collectors to their ends, and then tells the user of those that
failed. None of them ends as cancelled (`Collectors.perform?_failure?`), so each failure is told of.
A fetch is at each moment either collecting or giving its report (`Fetch.Stage`); the collectors'
steps come in any order, and all of the report behind them.

Main statement: `Fetch.run?_isolates`.
-/

namespace MergeConflict

variable {session after : Session} {source : Source}

/-! ## Collectors that nobody cancels -/

def EngineError.isCancelled : EngineError → Bool
  | cancelled => true
  | _ => false

/-- How a heuristic run has failed. -/
def HeuristicRun.failure? (run : HeuristicRun) : Option EngineError :=
  Collectors.errorOf run.result?

/-- How a label run has failed. -/
def LabelRun.failure? (run : LabelRun) : Option EngineError :=
  Collectors.errorOf run.result?

/-- How an edit-script run has failed, its batch being closed or about to be. -/
def ScriptRun.failure? : ScriptRun → Option EngineError
  | closing _ result => Collectors.errorOf (some result)
  | run => Collectors.errorOf run.result?

/-- How a history run has failed. -/
def HistoryRun.failure? (run : HistoryRun) : Option EngineError :=
  Collectors.errorOf run.result?

/-- How a collector has failed. -/
def Worker.failure? : Worker → Option EngineError
  | heuristic _ run => run.failure?
  | labels _ run => run.failure?
  | scripts run => run.failure?
  | history run => run.failure?

/-- A run that nobody cancels does not end as cancelled. -/
theorem HeuristicRun.failure?_advance {policy : PollingSettings} {run next : HeuristicRun}
    (moved : run.advance policy false session = some (next, after)) :
    next.failure?.any EngineError.isCancelled = false := by
  have settled (attempt : Nat) {more : HeuristicRun} (going : more.failure? = none) :
      (behind policy attempt more).failure?.any EngineError.isCancelled = false := by
    rw [behind]
    split
    · rw [going]; rfl
    · rfl
  cases run with
  | opening => cases moved; exact settled 0 rfl
  | holding attempt answer =>
    cases answer with
    | ok report =>
      cases moved
      split
      · exact settled attempt rfl
      · rfl
    | error failure => cases moved; rfl
  | asking attempt => cases moved; rfl
  | expiring => cases moved; rfl
  | _ => cases moved

theorem LabelRun.failure?_advance {hasCombiner : Bool} {run next : LabelRun}
    (moved : run.advance hasCombiner false session = some (next, after)) :
    next.failure?.any EngineError.isCancelled = false := by
  cases run with
  | asking => cases moved; rfl
  | holding answer =>
    cases answer with
    | ok predictions => cases moved; rfl
    | error failure => cases moved; rfl
  | sorting predictions tasks =>
    cases predictions with
    | nil => cases moved; rfl
    | cons prediction rest => cases moved; rfl
  | joining tasks count =>
    rw [advance, if_neg Bool.false_ne_true] at moved
    split at moved
    · cases moved; rfl
    · cases moved
  | joined block result tasks count =>
    cases result with
    | ok candidate => cases moved; rfl
    | error failure => cases moved; rfl
  | _ => cases moved

theorem LabelRun.failure?_join {run next : LabelRun} {id : Nat}
    {content : Option (Except Failure String)} (told : run.join id content = some next) :
    next.failure? = none := by
  cases run with
  | joining tasks count =>
    rw [join] at told
    split at told
    · cases told
    · split at told
      · cases told; rfl
      · cases told; rfl
  | _ => cases told

theorem ScriptRun.failure?_advance {run next : ScriptRun}
    (before : run.failure?.any EngineError.isCancelled = false)
    (moved : run.advance false session = some (next, after)) :
    next.failure?.any EngineError.isCancelled = false := by
  cases run with
  | opening => cases moved; rfl
  | joining batch tasks count =>
    rw [advance, if_neg Bool.false_ne_true] at moved
    split at moved
    · cases moved; rfl
    · cases moved
  | joined batch block result tasks count =>
    cases result with
    | ok outcome => cases moved; rfl
    | error failure => cases moved; rfl
  | closing batch result => cases moved; exact before
  | ended result => cases moved

theorem ScriptRun.failure?_join {run next : ScriptRun} {block : Nat}
    {outcome : Option (Except Failure ScriptOutcome)} (told : run.join block outcome = some next) :
    next.failure? = none := by
  cases run with
  | joining batch tasks count =>
    rw [join] at told
    split at told
    · cases told
    · split at told
      · cases told; rfl
      · cases told; rfl
  | _ => cases told

theorem HistoryRun.failure?_advance {run next : HistoryRun}
    (moved : run.advance false session = some (next, after)) :
    next.failure?.any EngineError.isCancelled = false := by
  cases run with
  | asking => cases moved; rfl
  | holding answer =>
    cases answer with
    | ok records => cases moved; rfl
    | error failure => cases moved; rfl
  | _ => cases moved

namespace Worker

variable {worker next : Worker}

theorem failure?_advance (before : worker.failure?.any EngineError.isCancelled = false)
    (moved : worker.advance false session = some (next, after)) :
    next.failure?.any EngineError.isCancelled = false := by
  cases advances_of_advance moved with
  | heuristic ran => exact HeuristicRun.failure?_advance ran
  | labels ran => exact LabelRun.failure?_advance ran
  | scripts ran => exact ScriptRun.failure?_advance before ran
  | history ran => exact HistoryRun.failure?_advance ran

/-- A collector that is told something has not failed. -/
theorem failure?_hear {news : News} (told : worker.hear news = some next) :
    next.failure? = none := by
  unfold hear at told
  split at told
  case h_7 => cases told
  all_goals obtain ⟨run', heard, rfl⟩ := Option.map_eq_some_iff.1 told
  case h_1 =>
    unfold HeuristicRun.receive at heard
    split at heard
    · cases heard; rfl
    · cases heard
  case h_2 =>
    unfold HeuristicRun.wake at heard
    split at heard
    · cases heard; rfl
    · cases heard
  case h_3 =>
    unfold LabelRun.receive at heard
    split at heard
    · cases heard; rfl
    · cases heard
  case h_4 => exact LabelRun.failure?_join heard
  case h_5 => exact ScriptRun.failure?_join heard
  case h_6 =>
    unfold HistoryRun.receive at heard
    split at heard
    · cases heard; rfl
    · cases heard

theorem failure?_start {task : Nat} (started : worker.start task = some next) :
    next.failure? = none := by
  cases worker with
  | labels hasCombiner run =>
    obtain ⟨run', started, rfl⟩ := Option.map_eq_some_iff.1 started
    cases run with
    | joining tasks count => cases started; rfl
    | _ => cases started
  | scripts run =>
    obtain ⟨run', started, rfl⟩ := Option.map_eq_some_iff.1 started
    cases run with
    | joining batch tasks count => cases started; rfl
    | _ => cases started
  | _ => cases started

/-- A collector that nobody cancels does not end as cancelled. -/
theorem failure?_act? {act : Act} (before : worker.failure?.any EngineError.isCancelled = false)
    (acted : worker.act? session act = some (next, after)) :
    next.failure?.any EngineError.isCancelled = false := by
  cases act?_eq_some_iff.1 acted with
  | advance moved => exact failure?_advance before moved
  | hear told =>
    rw [failure?_hear told]
    rfl
  | start started =>
    rw [failure?_start started]
    rfl

end Worker

namespace Collectors

/-- How the collector of a source has failed. -/
def failure? (runs : Collectors) : Source → Option EngineError
  | .heuristic => runs.heuristic.bind HeuristicRun.failure?
  | .classifier => runs.labels.bind LabelRun.failure?
  | .editScript => runs.scripts.bind ScriptRun.failure?
  | .history => runs.history.bind HistoryRun.failure?

variable {policy : PollingSettings} {hasCombiner : Bool} {runs next : Collectors}
  {acts : List (Source × Worker.Act)}

theorem failure?_of_worker? {worker : Worker}
    (held : runs.worker? policy hasCombiner source = some worker) :
    runs.failure? source = worker.failure? := by
  cases source with
  | _ =>
    obtain ⟨run, there, rfl⟩ := Option.map_eq_some_iff.1 held
    simp only [failure?, there]
    rfl

theorem failure?_put (runs : Collectors) (worker : Worker) (source : Source) :
    (runs.put worker).failure? source =
      if worker.source = source then worker.failure? else runs.failure? source := by
  cases worker with
  | _ => cases source with
    | _ => rfl

theorem failure?_ofEngines (engines : EngineSet) (source : Source) :
    (ofEngines engines).failure? source = none := by
  cases source with
  | _ =>
    simp only [failure?, ofEngines]
    split
    · rfl
    · rfl

/-- No collector of a fetch that nobody cancels ends as cancelled. -/
theorem perform?_failure? (engines : EngineSet)
    (performed : (ofEngines engines).perform? policy hasCombiner session acts = some (next, after))
    (source : Source) : (next.failure? source).any EngineError.isCancelled = false := by
  induction acts using List.reverseRecOn generalizing next after source with
  | nil =>
    cases performed
    rw [failure?_ofEngines]
    rfl
  | append_singleton acts act ih =>
    obtain ⟨actor, act⟩ := act
    rw [perform?_concat] at performed
    obtain ⟨⟨between, middle⟩, before, acted⟩ := Option.bind_eq_some_iff.1 performed
    obtain ⟨worker, worker', held, taken, rfl⟩ := act?_eq_some_iff.1 acted
    rw [failure?_put]
    split
    · refine Worker.failure?_act? ?_ taken
      rw [← failure?_of_worker? held]
      exact ih before actor
    · exact ih before source

end Collectors

/-! ## The report -/

/-- What the user is told of a collector that has failed, unless it was cancelled: that time is up,
or else an error. -/
def EngineError.noticeOf (source : Source) : EngineError → Notice
  | timeout attempts => .warning source (timeout attempts).message
  | error => .error (some source) error.message

theorem EngineError.notice?_eq {error : EngineError} (uncancelled : error.isCancelled = false)
    (source : Source) : error.notice? source = some (error.noticeOf source) := by
  cases error with
  | cancelled => cases uncancelled
  | _ => rfl

namespace Collectors

variable {runs : Collectors}

/-- The sources in the order of the report. -/
def inOrder : List Source :=
  [.heuristic, .classifier, .editScript, .history]

/-- What is reported of collectors that have ended, none of them as cancelled. -/
def told (runs : Collectors) : List Notice :=
  inOrder.filterMap fun source => (runs.failure? source).map (EngineError.noticeOf source)

theorem errors_eq (ended : runs.hasEnded = true) :
    runs.errors = inOrder.filterMap fun source => (runs.failure? source).map (source, ·) := by
  obtain ⟨heuristic, labels, scripts, history⟩ := runs
  have ofHeuristic : errorOf (heuristic.bind HeuristicRun.result?) =
      heuristic.bind HeuristicRun.failure? := by cases heuristic <;> rfl
  have ofLabels : errorOf (labels.bind LabelRun.result?) = labels.bind LabelRun.failure? := by
    cases labels <;> rfl
  have ofHistory : errorOf (history.bind HistoryRun.result?) =
      history.bind HistoryRun.failure? := by cases history <;> rfl
  have ofScripts : errorOf (scripts.bind ScriptRun.result?) = scripts.bind ScriptRun.failure? := by
    cases scripts with
    | none => rfl
    | some run =>
      cases run with
      | closing batch result => simp [hasEnded, ScriptRun.result?] at ended
      | _ => rfl
  simp only [errors, ofHeuristic, ofLabels, ofScripts, ofHistory]
  rfl

theorem notices_eq (ended : runs.hasEnded = true)
    (uncancelled : ∀ source, (runs.failure? source).any EngineError.isCancelled = false) :
    runs.notices = runs.told := by
  rw [notices, errors_eq ended, told, List.filterMap_filterMap]
  refine List.filterMap_congr fun source _ => ?_
  cases failed : runs.failure? source with
  | none => rfl
  | some error =>
    have uncancelled := uncancelled source
    rw [failed] at uncancelled
    exact EngineError.notice?_eq uncancelled source

end Collectors

namespace Fetch

inductive Event where
  /-- A collector takes a step. -/
  | act (act : Source × Worker.Act)
  /-- The fetch itself takes a step. -/
  | report

/-- One step of a fetch. -/
def step? (policy : PollingSettings) (hasCombiner : Bool) (state : Fetch × Session) :
    Event → Option (Fetch × Session)
  | .act act =>
    match state.1 with
    | collecting runs =>
      (Collectors.act? policy hasCombiner (runs, state.2) act).map fun (runs, session) =>
        (collecting runs, session)
    | reporting _ => none
  | .report => state.1.advance state.2

/-- A fetch and its session after some steps, each of which has to be possible. -/
def run? (policy : PollingSettings) (hasCombiner : Bool) (fetch : Fetch) (session : Session)
    (events : List Event) : Option (Fetch × Session) :=
  events.foldlM (step? policy hasCombiner) (fetch, session)

/-- How far a fetch has come: collectors are at work, or all have ended and some of the notices are
given. -/
inductive Stage (policy : PollingSettings) (hasCombiner : Bool) (begun : Collectors)
    (session : Session) : List Event → Fetch → Session → Prop
  | collecting {acts : List (Source × Worker.Act)} {runs : Collectors} {collected : Session} :
    begun.perform? policy hasCombiner session acts = some (runs, collected) →
    Stage policy hasCombiner begun session (acts.map .act) (.collecting runs) collected
  | reporting {acts : List (Source × Worker.Act)} {runs : Collectors} {collected : Session}
    {given rest : List Notice} :
    begun.perform? policy hasCombiner session acts = some (runs, collected) →
    runs.hasEnded = true → runs.notices = given ++ rest →
    Stage policy hasCombiner begun session
      (acts.map .act ++ List.replicate (given.length + 1) .report) (.reporting rest)
      { collected with notices := collected.notices ++ given }

variable {policy : PollingSettings} {hasCombiner : Bool} {begun : Collectors} {fetch next : Fetch}
  {events : List Event} {event : Event}

theorem run?_concat (fetch : Fetch) (session : Session) (events : List Event) (event : Event) :
    run? policy hasCombiner fetch session (events ++ [event]) =
      (run? policy hasCombiner fetch session events).bind (step? policy hasCombiner · event) := by
  rw [run?, run?, List.foldlM_append]
  congr
  funext between
  simp

theorem Stage.step {start : Session}
    (stage : Stage policy hasCombiner begun start events fetch session)
    (taken : step? policy hasCombiner (fetch, session) event = some (next, after)) :
    Stage policy hasCombiner begun start (events ++ [event]) next after := by
  cases stage with
  | @collecting acts runs collected performed =>
    cases event with
    | act act =>
      obtain ⟨⟨runs', after'⟩, acted, same⟩ := Option.map_eq_some_iff.1 taken
      cases same
      have performed' : begun.perform? policy hasCombiner start (acts ++ [act]) =
          some (runs', after) := by
        rw [Collectors.perform?_concat, performed]
        exact acted
      have stage := Stage.collecting performed'
      rwa [List.map_append] at stage
    | report =>
      rw [step?, advance] at taken
      split at taken
      · next ended =>
        cases taken
        have stage := Stage.reporting performed ended (List.nil_append _).symm
        rwa [List.append_nil] at stage
      · cases taken
  | @reporting acts runs collected given rest performed ended notices =>
    cases event with
    | act act => cases taken
    | report =>
      cases rest with
      | nil => cases taken
      | cons notice rest =>
        cases taken
        rw [List.append_cons] at notices
        have stage := Stage.reporting performed ended notices
        rw [List.length_append, List.length_singleton, List.replicate_succ',
          ← List.append_assoc, ← List.append_assoc] at stage
        exact stage

theorem run?_of_perform? {acts : List (Source × Worker.Act)} {runs : Collectors}
    {collected : Session}
    (performed : begun.perform? policy hasCombiner session acts = some (runs, collected)) :
    run? policy hasCombiner (.collecting begun) session (acts.map .act) =
      some (.collecting runs, collected) := by
  induction acts using List.reverseRecOn generalizing runs collected with
  | nil => cases performed; rfl
  | append_singleton acts act ih =>
    rw [Collectors.perform?_concat] at performed
    obtain ⟨⟨between, middle⟩, performed, acted⟩ := Option.bind_eq_some_iff.1 performed
    rw [List.map_append, List.map_singleton, run?_concat, ih performed]
    exact Option.map_eq_some_iff.2 ⟨_, acted, rfl⟩

/-- Every stage is reached. -/
theorem Stage.run? (stage : Stage policy hasCombiner begun session events fetch after) :
    Fetch.run? policy hasCombiner (.collecting begun) session events = some (fetch, after) := by
  cases stage with
  | collecting performed => exact run?_of_perform? performed
  | @reporting acts runs collected given rest performed ended notices =>
    induction given using List.reverseRecOn generalizing rest with
    | nil =>
      rw [List.nil_append] at notices
      rw [List.append_nil, List.length_nil, List.replicate_one, run?_concat,
        run?_of_perform? performed, ← notices]
      exact if_pos ended
    | append_singleton given notice ih =>
      rw [List.append_assoc] at notices
      rw [List.length_append, List.length_singleton, List.replicate_succ', ← List.append_assoc,
        ← List.append_assoc, run?_concat, ih notices]
      rfl

theorem run?_eq_some_iff : run? policy hasCombiner (.collecting begun) session events =
    some (fetch, after) ↔ Stage policy hasCombiner begun session events fetch after := by
  refine ⟨fun reached => ?_, Stage.run?⟩
  induction events using List.reverseRecOn generalizing fetch after with
  | nil =>
    cases reached
    exact .collecting (show begun.perform? policy hasCombiner session [] = some _ from rfl)
  | append_singleton events event ih =>
    rw [run?_concat] at reached
    obtain ⟨⟨before, middle⟩, reached, taken⟩ := Option.bind_eq_some_iff.1 reached
    exact (ih reached).step taken

/-- The collectors of a fetch that nobody cancels do not get in each other's way. Steps can be taken
in some order exactly if each collector can take its own on its own; each then is where it would be
on its own, and has left the same part of the pool. The fetch comes to its end exactly behind the
ends of all collectors, and adds a notice for each that has failed, in the order of the sources: a
warning if its time was up, or else an error. -/
theorem run?_isolates (engines : EngineSet) (policy : PollingSettings) (session : Session) :
    let begun := Collectors.ofEngines engines
    let perform (runs : Collectors) := runs.perform? policy (engines.has .combiner) session
    (∀ acts, (perform begun acts).isSome = true ↔
      ∀ source, (perform (begun.only source) (Collectors.partOf source acts)).isSome = true) ∧
    (∀ acts runs collected, perform begun acts = some (runs, collected) →
      ∀ source, ∃ left, perform (begun.only source) (Collectors.partOf source acts) =
        some (runs.only source, left) ∧ Session.Alike source collected left) ∧
    ∀ events after, run? policy (engines.has .combiner) (.collecting begun) session events =
        some (.reporting [], after) ↔
      ∃ acts runs collected, perform begun acts = some (runs, collected) ∧
        runs.hasEnded = true ∧
        events = acts.map .act ++ List.replicate (runs.told.length + 1) .report ∧
        after = { collected with notices := collected.notices ++ runs.told } := by
  intro begun perform
  have told {acts : List (Source × Worker.Act)} {runs : Collectors} {collected : Session}
      (performed : perform begun acts = some (runs, collected)) (ended : runs.hasEnded = true) :
      runs.notices = runs.told :=
    Collectors.notices_eq ended (Collectors.perform?_failure? engines performed)
  refine ⟨fun acts => Collectors.isSome_perform?_iff,
    fun acts runs collected performed => Collectors.perform?_only performed,
    fun events after => ⟨fun reached => ?_, ?_⟩⟩
  · cases run?_eq_some_iff.1 reached with
    | @reporting acts runs collected given rest performed ended notices =>
      rw [List.append_nil, told performed ended] at notices
      rw [← notices]
      exact ⟨acts, runs, collected, performed, ended, rfl, rfl⟩
  · rintro ⟨acts, runs, collected, performed, ended, rfl, rfl⟩
    refine run?_eq_some_iff.2 (.reporting performed ended ?_)
    rw [told performed ended, List.append_nil]

/-- A heuristic collector and one of the history, whose engine is down. -/
def historyDown : List (Source × Worker.Act) :=
  [(.heuristic, .advance), (.history, .advance),
    (.history, .hear (.records (.error ⟨"down", []⟩))), (.heuristic, .advance),
    (.history, .advance), (.heuristic, .hear (.report (.ok ⟨false, [], none, false⟩))),
    (.heuristic, .advance)]

/-- The heuristic answer comes in behind the failure, and the report tells of the failure alone. The
steps can be taken in this order since each collector can take its own, and each of the two is where
it would be without the other. -/
theorem run?_isolates_historyDown :
    let begun := Collectors.ofEngines ⟨[.heuristic, .history]⟩
    let perform (runs : Collectors) := runs.perform? ⟨7, 5000⟩ false Team.oneBlock
    (perform begun historyDown).isSome = true ∧
    ∃ runs collected, perform begun historyDown = some (runs, collected) ∧
      (∀ source, ∃ left, perform (begun.only source) (Collectors.partOf source historyDown) =
        some (runs.only source, left) ∧ Session.Alike source collected left) ∧
      ∃ events after, run? ⟨7, 5000⟩ false (.collecting begun) Team.oneBlock events =
          some (.reporting [], after) ∧
        after.buffer.pool.status = .ready ∧ after.notices = [.error (some .history) "down"] := by
  intro begun perform
  have alone (source : Source) :
      (perform (begun.only source) (Collectors.partOf source historyDown)).isSome = true := by
    cases source <;> rfl
  obtain ⟨runs, collected, performed, ended, status, quiet, told⟩ :
      ∃ runs collected, perform begun historyDown = some (runs, collected) ∧
        runs.hasEnded = true ∧ collected.buffer.pool.status = .ready ∧ collected.notices = [] ∧
        runs.told = [.error (some .history) "down"] :=
    ⟨_, _, rfl, rfl, rfl, rfl, rfl⟩
  obtain ⟨performable, isolated, report⟩ :=
    run?_isolates ⟨[.heuristic, .history]⟩ ⟨7, 5000⟩ Team.oneBlock
  refine ⟨(performable historyDown).2 alone, runs, collected, performed,
    isolated historyDown runs collected performed, _, _,
    (report _ _).2 ⟨historyDown, runs, collected, performed, ended, rfl, rfl⟩, status, ?_⟩
  rw [quiet, told, List.nil_append]

end Fetch

end MergeConflict
