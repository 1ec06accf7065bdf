import MergeConflict.Engine.Response
import MergeConflict.Session
import MergeConflict.Settings

/-!
Questions to engines, and what goes wrong with them.
-/

namespace MergeConflict

/-- Something asked of one of the engines. -/
inductive Question where
  | heuristic (request : HeuristicRequest)
  | classifier (request : LabelRequest)
  | combiner (request : CombineRequest)
  | editScript (request : ScriptRequest)
  | history (query : HistoryQuery)
  | audit (record : ChoiceRecord)
deriving DecidableEq, Repr

def Question.kind : Question → EngineKind
  | heuristic _ => .heuristic
  | classifier _ => .classifier
  | combiner _ => .combiner
  | editScript _ => .editScript
  | history _ => .history
  | audit _ => .audit

/-- Why an engine has no answer: what is shown, and its causes down to the root. -/
structure Failure where
  message : String
  causes : List String
deriving DecidableEq, Repr

/-- The message and all causes behind it. -/
def Failure.full (failure : Failure) : String :=
  ": ".intercalate (failure.message :: failure.causes)

/-- Why a collector or an exchange came to nothing. -/
inductive EngineError where
  | network
  | rejected (kind : EngineKind) (reason : String)
  | failed (failure : Failure)
  | timeout (attempts : Nat)
  | cancelled
deriving DecidableEq, Repr

namespace EngineError

def message : EngineError → String
  | network => "network error"
  | rejected kind reason => kind.name ++ " rejected the request: " ++ reason
  | failed failure => failure.message
  | timeout attempts => "still pending after " ++ toString attempts ++ " attempts"
  | cancelled => "cancelled"

/-- What the user is told of a collector that failed; a cancelled one is passed over. -/
def notice? (source : Source) (error : EngineError) : Option Notice :=
  match error with
  | cancelled => none
  | timeout _ => some (.warning source error.message)
  | _ => some (.error (some source) error.message)

end EngineError

/-- What the user is told of a choice that the audit did not take. -/
def Failure.auditNotice (failure : Failure) : Notice :=
  .error none ("audit: " ++ failure.full)

end MergeConflict
