import MergeConflict.Json.Printer
import MergeConflict.Settings
import MergeConflict.Wire.Blocks

/-!
The settings file: JSON in which any member may be missing and stands for its default then. What a
missing member stands for is said member by member, apart from the settings of a fresh program.
-/

namespace MergeConflict

open Json (Decoder Field Variant)

namespace EngineSettings

def toJson (s : EngineSettings) : Json :=
  .obj [
    ("sa", .str s.heuristic),
    ("classifier", .str s.classifier),
    ("combiner", .str s.combiner),
    ("edit_script", .str s.editScript),
    ("history", .str s.history),
    ("audit", .str s.audit),
    ("timeout_secs", .ofNat s.timeout)]

/-- What members that are missing stand for. -/
def absent : EngineSettings where
  heuristic := defaultHeuristic
  classifier := defaultClassifier
  combiner := defaultCombiner
  editScript := defaultEditScript
  history := defaultBackend
  audit := defaultBackend
  timeout := defaultTimeout

def ofJson : Decoder EngineSettings :=
  Json.record absent [
    .defaulted "sa" Json.string fun s r => { r with heuristic := s },
    .defaulted "classifier" Json.string fun s r => { r with classifier := s },
    .defaulted "combiner" Json.string fun s r => { r with combiner := s },
    .defaulted "edit_script" Json.string fun s r => { r with editScript := s },
    .defaulted "history" Json.string fun s r => { r with history := s },
    .defaulted "audit" Json.string fun s r => { r with audit := s },
    .defaulted "timeout_secs" (Json.natural 64) fun n r => { r with timeout := n }]

end EngineSettings

namespace PollingSettings

def toJson (s : PollingSettings) : Json :=
  .obj [("max_attempts", .ofNat s.attempts), ("interval_ms", .ofNat s.interval)]

def absent : PollingSettings where
  attempts := defaultAttempts
  interval := defaultInterval

def ofJson : Decoder PollingSettings :=
  Json.record absent [
    .defaulted "max_attempts" (Json.natural 32) fun n r => { r with attempts := n },
    .defaulted "interval_ms" (Json.natural 64) fun n r => { r with interval := n }]

end PollingSettings

namespace DiffSettings

def toJson (s : DiffSettings) : Json :=
  .obj [("algorithm", s.algorithm.toJson)]

def absent : DiffSettings where
  algorithm := .default

def ofJson : Decoder DiffSettings :=
  Json.record absent [
    .defaulted "algorithm" Algorithm.ofJson fun a r => { r with algorithm := a }]

end DiffSettings

namespace HttpSettings

def toJson (s : HttpSettings) : Json :=
  .obj [
    ("enabled", .bool s.enabled),
    ("port", .ofNat s.portNumber),
    ("cors_origins", .ofStrings s.origins)]

def absent : HttpSettings where
  enabled := false
  portNumber := defaultPortNumber
  origins := []

def ofJson : Decoder HttpSettings :=
  Json.record absent [
    .defaulted "enabled" Json.boolean fun b r => { r with enabled := b },
    .defaulted "port" (Json.natural 16) fun n r => { r with portNumber := n },
    .defaulted "cors_origins" Json.strings fun l r => { r with origins := l }]

end HttpSettings

namespace ProjectSettings

def toJson (s : ProjectSettings) : Json :=
  .obj [
    ("project_path", .str s.path),
    ("target_branch", .str s.targetBranch),
    ("source_branch", .str s.sourceBranch)]

def absent : ProjectSettings where
  path := ""
  targetBranch := ""
  sourceBranch := ""

def ofJson : Decoder ProjectSettings :=
  Json.record absent [
    .defaulted "project_path" Json.string fun s r => { r with path := s },
    .defaulted "target_branch" Json.string fun s r => { r with targetBranch := s },
    .defaulted "source_branch" Json.string fun s r => { r with sourceBranch := s }]

end ProjectSettings

namespace Settings

def toJson (s : Settings) : Json :=
  .obj [
    ("engines", s.engines.toJson),
    ("polling", s.polling.toJson),
    ("diff", s.diff.toJson),
    ("http", s.http.toJson),
    ("project", s.project.toJson)]

/-- A section that is missing is a fresh one. -/
def absent : Settings where
  engines := .default
  polling := .default
  diff := .default
  http := .default
  project := .default

def ofJson : Decoder Settings :=
  Json.record absent [
    .defaulted "engines" EngineSettings.ofJson fun s r => { r with engines := s },
    .defaulted "polling" PollingSettings.ofJson fun s r => { r with polling := s },
    .defaulted "diff" DiffSettings.ofJson fun s r => { r with diff := s },
    .defaulted "http" HttpSettings.ofJson fun s r => { r with http := s },
    .defaulted "project" ProjectSettings.ofJson fun s r => { r with project := s }]

/-- The text of a settings file. -/
def save (settings : Settings) : String :=
  settings.toJson.pretty

/-- The settings a file stands for. -/
def load (text : String) : Except Json.Fault Settings :=
  Json.ofText ofJson text

end Settings

end MergeConflict
