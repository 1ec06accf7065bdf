import MergeConflict.Binary64
import MergeConflict.Binary64.Shortest
import MergeConflict.Block
import MergeConflict.Block.Scan
import MergeConflict.Buffer
import MergeConflict.Buffer.Watched
import MergeConflict.Choice
import MergeConflict.Collector
import MergeConflict.Collector.Heuristic
import MergeConflict.Collector.History
import MergeConflict.Collector.Labels
import MergeConflict.Collector.Scripts
import MergeConflict.CommandLine
import MergeConflict.CommandLine.Dialogue
import MergeConflict.CommandLine.Form
import MergeConflict.CommandLine.Input
import MergeConflict.CommandLine.Invocation
import MergeConflict.CommandLine.Listing
import MergeConflict.CommandLine.SettingsFile
import MergeConflict.CommandLine.Setup
import MergeConflict.CommandLine.Sitting
import MergeConflict.Engine.Exchange
import MergeConflict.Engine.Failure
import MergeConflict.Engine.Request
import MergeConflict.Engine.Response
import MergeConflict.EngineSet
import MergeConflict.FileContext
import MergeConflict.Fingerprint
import MergeConflict.Gateway
import MergeConflict.Gateway.Endpoint
import MergeConflict.Gateway.Fetches
import MergeConflict.Gateway.Origins
import MergeConflict.Gateway.SessionId
import MergeConflict.Http.Query
import MergeConflict.Http.Request
import MergeConflict.Http.Status
import MergeConflict.Http.Target
import MergeConflict.Hunk
import MergeConflict.Json
import MergeConflict.Json.Decoder
import MergeConflict.Json.Numeral
import MergeConflict.Json.Printer
import MergeConflict.Json.Reader
import MergeConflict.Json.Token
import MergeConflict.Label
import MergeConflict.Main
import MergeConflict.Marker
import MergeConflict.Menu
import MergeConflict.Patch
import MergeConflict.Patch.Reconcile
import MergeConflict.Pool
import MergeConflict.Pool.Resolve
import MergeConflict.Rehearsal
import MergeConflict.Rehearsal.Background
import MergeConflict.Rehearsal.Disk
import MergeConflict.Rehearsal.Stubs
import MergeConflict.Rehearsal.Terminal
import MergeConflict.ResolveError
import MergeConflict.Script
import MergeConflict.Script.Compaction
import MergeConflict.Script.Diff
import MergeConflict.Script.Myers
import MergeConflict.Script.Patience
import MergeConflict.Session
import MergeConflict.Settings
import MergeConflict.Sha256
import MergeConflict.Table
import MergeConflict.Text.Blank
import MergeConflict.Text.Lines
import MergeConflict.Text.Utf8
import MergeConflict.Wire.Blocks
import MergeConflict.Wire.Candidates
import MergeConflict.Wire.Engine
import MergeConflict.Wire.Exchange
import MergeConflict.Wire.Gateway
import MergeConflict.Wire.Session
import MergeConflict.Wire.Settings
import MergeConflict.Proofs.BlockLayout
import MergeConflict.Proofs.HunkLayout
import MergeConflict.Proofs.ReconcileGroups
import MergeConflict.Proofs.ReconcileWeave
import MergeConflict.Proofs.MergeRoundTrip
import MergeConflict.Proofs.ReconcileSplit
import MergeConflict.Proofs.BufferMoves
import MergeConflict.Proofs.PartialRefresh
import MergeConflict.Proofs.StrayMarkers
import MergeConflict.Proofs.RefreshExact
import MergeConflict.Proofs.ConflictStretches
import MergeConflict.Proofs.ResolutionOrder
import MergeConflict.Proofs.BlockGrammar
import MergeConflict.Proofs.MarkerRuns
import MergeConflict.Proofs.TextLines
import MergeConflict.Proofs.VersionHistory
import MergeConflict.Proofs.ApplyOutcome
import MergeConflict.Proofs.DerivedState
import MergeConflict.Proofs.BlockAddress
import MergeConflict.Proofs.PoolLog
import MergeConflict.Proofs.CheckedPatches
import MergeConflict.Proofs.CheckedRun
import MergeConflict.Proofs.MenuChoices
import MergeConflict.Proofs.SharedSession
import MergeConflict.Proofs.BatchOrder
import MergeConflict.Proofs.CancelledRuns
import MergeConflict.Proofs.FetchTokens
import MergeConflict.Proofs.ResultsAlone
import MergeConflict.Proofs.TextView
import MergeConflict.Proofs.IsolatedSources
import MergeConflict.Proofs.FetchReport
import MergeConflict.Proofs.ScriptRuns
import MergeConflict.Proofs.HunkMeaning
import MergeConflict.Proofs.PatchParts
import MergeConflict.Proofs.AppliedChoice
import MergeConflict.Proofs.Relocation
import MergeConflict.Proofs.BareConflict
import MergeConflict.Proofs.GivenLines
import MergeConflict.Proofs.WidenedPatches
import MergeConflict.Proofs.KeptConflict
import MergeConflict.Proofs.BatchIds
import MergeConflict.Proofs.LabelVerdicts
import MergeConflict.Proofs.LabelOutcomes
import MergeConflict.Proofs.PollingCourse
import MergeConflict.Proofs.PollingRuns
import MergeConflict.Proofs.JsonSpelling
import MergeConflict.Proofs.JsonTexts
import MergeConflict.Proofs.JsonMembers
import MergeConflict.Proofs.TextBytes
import MergeConflict.Proofs.WrittenFiles
import MergeConflict.Proofs.SettingsDefaults
