import MergeConflict.CommandLine.Dialogue
import MergeConflict.CommandLine.Invocation
import MergeConflict.Wire.Settings

/-!
The settings file on disk, and the command that reports it.
-/

namespace MergeConflict

namespace Settings

/-- The settings in a file, or what keeps them from being read. -/
def readFile (path : String) : Dialogue (Except CommandFailure Settings) :=
  .read path fun
    | .error fault => .done (.error (.file fault))
    | .ok content =>
      match Settings.load content with
      | .error fault => .done (.error (.settings fault))
      | .ok settings => .done (.ok settings)

/-- The settings in a file, or the default ones if there is no file. -/
def readOrDefault (path : String) : Dialogue Settings :=
  .isThere path fun
    | false => .done .default
    | true =>
      (readFile path).andThen fun
        | .error failure => .fail failure
        | .ok settings => .done settings

/-- Writes settings into the file that an invocation keeps them in. -/
def writeFile (settings : Settings) (invocation : Invocation) : Dialogue Unit := do
  .makeFolders invocation.dataFolder
  .writeText invocation.settingsPath settings.save

/-- The names that a report gives the engines. -/
def engineTitle : EngineKind → String
  | .heuristic => "SA"
  | .classifier => "Classifier"
  | .combiner => "Combiner"
  | .editScript => "Edit script"
  | .history => "History"
  | .audit => "Audit"

private def engineLine (settings : EngineSettings) (kind : EngineKind) : String :=
  let address := settings.address kind
  "  " ++ engineTitle kind ++ ": " ++ if Text.trim address = "" then "(disabled)" else address

/-- The settings as a status report shows them. -/
def report (settings : Settings) : List String :=
  EngineKind.all.map (engineLine settings.engines) ++
    ["  Timeout: " ++ toString settings.engines.timeout ++ "s",
      "  Polling: " ++ toString settings.polling.attempts ++ " attempts every " ++
        toString settings.polling.interval ++ "ms",
      "  Diff: " ++ settings.diff.algorithm.title] ++
    (if settings.http.enabled then ["  HTTP API: port " ++ toString settings.http.portNumber] else []) ++
    (if settings.project.path = "" then []
      else
        ["  Project: " ++ settings.project.path ++ " (" ++ settings.project.targetBranch ++
          " <- " ++ settings.project.sourceBranch ++ ")"])

end Settings

namespace CommandLine

/-- Reports the settings; a file that cannot be read counts as none. -/
def status (invocation : Invocation) : Dialogue Unit := do
  .printAll ["mergebot Status", "===============", ""]
  match ← Settings.readFile invocation.settingsPath with
  | .ok settings => .printAll ("Configuration: Found" :: settings.report)
  | .error _ =>
    .printAll ["Configuration: Not found", "  Run 'mergebot setup' to configure"]

end CommandLine

end MergeConflict
