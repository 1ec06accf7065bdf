import MergeConflict.Script.Diff

/-!
The settings of the program, section by section, with the values that stand where a settings file
is silent.
-/

namespace MergeConflict

/-- The engines a session can draw on. -/
inductive EngineKind where
  | heuristic
  | classifier
  | combiner
  | editScript
  | history
  | audit
deriving DecidableEq, Repr

namespace EngineKind

def name : EngineKind → String
  | heuristic => "sa"
  | classifier => "classifier"
  | combiner => "combiner"
  | editScript => "edit_script"
  | history => "history"
  | audit => "audit"

/-- In the order in which they are listed. -/
def all : List EngineKind := [heuristic, classifier, combiner, editScript, history, audit]

end EngineKind

/-- The address of each engine; a blank one disables it. -/
structure EngineSettings where
  heuristic : String
  classifier : String
  combiner : String
  editScript : String
  history : String
  audit : String
  /-- How long a request may take, in seconds. -/
  timeout : Nat
deriving DecidableEq, Repr

/-- How often an engine that has no answer yet is asked again. -/
structure PollingSettings where
  attempts : Nat
  /-- In milliseconds. -/
  interval : Nat
deriving DecidableEq, Repr

structure DiffSettings where
  algorithm : Algorithm
deriving DecidableEq, Repr

structure HttpSettings where
  enabled : Bool
  portNumber : Nat
  /-- The origins that may use the interface; none means any. -/
  origins : List String
deriving DecidableEq, Repr

/-- The merge that is resolved where a session does not say. -/
structure ProjectSettings where
  path : String
  targetBranch : String
  sourceBranch : String
deriving DecidableEq, Repr

structure Settings where
  engines : EngineSettings
  polling : PollingSettings
  diff : DiffSettings
  http : HttpSettings
  project : ProjectSettings
deriving DecidableEq, Repr

namespace EngineSettings

def defaultHeuristic : String := "http://127.0.0.1:18001"

def defaultClassifier : String := "http://127.0.0.1:18002"

def defaultCombiner : String := "http://127.0.0.1:18003"

def defaultEditScript : String := "http://127.0.0.1:18004"

/-- The address of the history and of the audit. -/
def defaultBackend : String := "http://127.0.0.1:8080"

def defaultTimeout : Nat := 30

def default : EngineSettings where
  heuristic := defaultHeuristic
  classifier := defaultClassifier
  combiner := defaultCombiner
  editScript := defaultEditScript
  history := defaultBackend
  audit := defaultBackend
  timeout := defaultTimeout

end EngineSettings

namespace PollingSettings

def defaultAttempts : Nat := 7

def defaultInterval : Nat := 5000

def default : PollingSettings := ⟨defaultAttempts, defaultInterval⟩

end PollingSettings

def DiffSettings.default : DiffSettings := ⟨.default⟩

namespace HttpSettings

def defaultPortNumber : Nat := 8787

def default : HttpSettings := ⟨false, defaultPortNumber, []⟩

end HttpSettings

def ProjectSettings.default : ProjectSettings := ⟨"", "", ""⟩

def Settings.default : Settings :=
  ⟨.default, .default, .default, .default, .default⟩

def EngineSettings.address (settings : EngineSettings) : EngineKind → String
  | .heuristic => settings.heuristic
  | .classifier => settings.classifier
  | .combiner => settings.combiner
  | .editScript => settings.editScript
  | .history => settings.history
  | .audit => settings.audit

end MergeConflict
