import MergeConflict.CommandLine.SettingsFile

/-!
The setup: a questionnaire that starts from the settings there are and writes the answers back.
-/

namespace MergeConflict

namespace CommandLine

private def askEngines (old : EngineSettings) : Dialogue EngineSettings := do
  let heuristic ← .askText "Static analysis engine" old.heuristic
  let classifier ← .askText "Classifier" old.classifier
  let combiner ← .askText "Combiner" old.combiner
  let editScript ← .askText "Edit-script engine" old.editScript
  let history ← .askText "History backend" old.history
  let audit ← .askText "Audit backend" old.audit
  let timeout ← .askNumber "Request timeout (seconds)" old.timeout 64
  return { heuristic, classifier, combiner, editScript, history, audit, timeout }

private def askPolling (old : PollingSettings) : Dialogue PollingSettings := do
  let attempts ← .askNumber "Heuristic polling attempts" old.attempts 32
  let interval ← .askNumber "Polling interval (ms)" old.interval 64
  return { attempts, interval }

/-- The algorithms, as they are offered. -/
def offeredAlgorithms : List Algorithm := [.tokens, .lines]

private def askDiff (old : DiffSettings) : Dialogue DiffSettings := do
  let algorithm ←
    .choose "Diff algorithm" offeredAlgorithms Algorithm.name
      (offeredAlgorithms.idxOf old.algorithm)
  return { algorithm }

/-- Asks where to listen only if the interface is wanted; the origins are kept. -/
private def askHttp (old : HttpSettings) : Dialogue HttpSettings := do
  let enabled ← .askWhether "Enable HTTP API (for editor plugins)?" old.enabled
  if enabled then
    let portNumber ← .askNumber "HTTP port" old.portNumber 16
    return { old with enabled, portNumber }
  else
    return { old with enabled }

private def askProject (old : ProjectSettings) : Dialogue ProjectSettings := do
  let path ← .askText "Default project path" old.path
  let targetBranch ← .askText "Default target branch" old.targetBranch
  let sourceBranch ← .askText "Default source branch" old.sourceBranch
  return { path, targetBranch, sourceBranch }

/-- All questions of the setup, section by section. -/
def askSettings (old : Settings) : Dialogue Settings := do
  .print "Engine URLs (leave empty to disable a source)"
  let engines ← askEngines old.engines
  .skipLine
  let polling ← askPolling old.polling
  .skipLine
  let diff ← askDiff old.diff
  .skipLine
  let http ← askHttp old.http
  .skipLine
  let project ← askProject old.project
  return { engines, polling, diff, http, project }

def setup (invocation : Invocation) : Dialogue Unit := do
  .makeFolders invocation.dataFolder
  .printAll ["", "mergebot - Setup Wizard", "=======================", ""]
  let settings ← askSettings (← Settings.readOrDefault invocation.settingsPath)
  settings.writeFile invocation
  .printAll ["", "Configuration saved to " ++ invocation.settingsPath, "",
    "Resolve a file with: mergebot resolve <file> --fetch", ""]

end CommandLine

end MergeConflict
