import MergeConflict.Collector.Heuristic
import MergeConflict.Collector.History
import MergeConflict.Collector.Labels
import MergeConflict.Collector.Scripts
import MergeConflict.EngineSet

/-!
All collectors of a session at once.

A fetch runs a collector for every engine in use, side by side on one session. When all have ended,
it tells the user about those that failed, in the order of the sources.
-/

namespace MergeConflict

/-- The collectors that run; one that is missing has no engine. -/
structure Collectors where
  heuristic : Option HeuristicRun
  labels : Option LabelRun
  scripts : Option ScriptRun
  history : Option HistoryRun

namespace Collectors

/-- No collector. -/
def idle : Collectors := ⟨none, none, none, none⟩

/-- Collectors about to begin. -/
def ofEngines (engines : EngineSet) : Collectors where
  heuristic := if engines.has .heuristic then some .opening else none
  labels := if engines.has .classifier then some .asking else none
  scripts := if engines.has .editScript then some .opening else none
  history := if engines.has .history then some .asking else none

def hasEnded (runs : Collectors) : Bool :=
  runs.heuristic.all (·.result?.isSome) && runs.labels.all (·.result?.isSome) &&
    runs.scripts.all (·.result?.isSome) && runs.history.all (·.result?.isSome)

def errorOf {α : Type} : Option (Except EngineError α) → Option EngineError
  | some (.error e) => some e
  | _ => none

/-- The errors of the collectors that failed, in the order of the sources. -/
def errors (runs : Collectors) : List (Source × EngineError) :=
  [(Source.heuristic, errorOf (runs.heuristic.bind HeuristicRun.result?)),
    (.classifier, errorOf (runs.labels.bind LabelRun.result?)),
    (.editScript, errorOf (runs.scripts.bind ScriptRun.result?)),
    (.history, errorOf (runs.history.bind HistoryRun.result?))].filterMap
    fun (source, error) => error.map (source, ·)

/-- What the user is told of the collectors that failed. -/
def notices (runs : Collectors) : List Notice :=
  runs.errors.filterMap fun (source, error) => error.notice? source

end Collectors

/-- All collectors of a session, and the report behind them. -/
inductive Fetch where
  | collecting (runs : Collectors)
  /-- The notices still to be given. -/
  | reporting (rest : List Notice)

namespace Fetch

/-- The next move of the report; the collectors move on their own. -/
def advance (session : Session) : Fetch → Option (Fetch × Session)
  | collecting runs => if runs.hasEnded then some (reporting runs.notices, session) else none
  | reporting [] => none
  | reporting (notice :: rest) => some (reporting rest, session.notify notice)

def hasEnded : Fetch → Bool
  | reporting [] => true
  | _ => false

end Fetch

end MergeConflict
