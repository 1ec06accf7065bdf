import MergeConflict.Binary64
import MergeConflict.Label
import MergeConflict.Table

/-!
The pool of candidate resolutions.

Four sources put in their results through `Update`, each without regard to the others. A run of the
edit-script source is a batch with an id of its own; results that carry another id than the latest
batch are dropped.
-/

namespace MergeConflict

/-- How far the heuristic source has come. -/
inductive HeuristicStatus where
  | idle
  | pending
  | ready
  | timedOut
  | failed
deriving DecidableEq, Repr

/-- A resolution the heuristic source proposes for a block given by number. -/
structure Resolution where
  block : Nat
  note : String
  confidence : Binary64
  label : String
  content : String
deriving DecidableEq, Repr

/-- One answer of the heuristic source. -/
structure Report where
  pending : Bool
  resolutions : List Resolution
  merged : Option (List String)
  /-- The answer holds a list of patches, and the list is empty. -/
  patchesEmpty : Bool
deriving DecidableEq, Repr

structure LabelCandidate where
  label : Label
  confidence : Binary64
  content : String
deriving DecidableEq, Repr

inductive ScriptOutcome where
  | resolvable (text : String)
  | unresolvable
deriving DecidableEq, Repr

structure HistoryCandidate where
  content : String
  confidence : Binary64
deriving DecidableEq, Repr

/-- A result put into the pool. -/
inductive Update where
  | heuristicStarted
  | heuristic (report : Report)
  | heuristicTimedOut
  | heuristicFailed
  | labelsCleared
  | label (block : Nat) (candidate : LabelCandidate)
  | batchStarted (batch : UInt64)
  | script (batch : UInt64) (block : Nat) (outcome : ScriptOutcome)
  | batchFinished (batch : UInt64)
  | history (block : Nat) (candidates : List HistoryCandidate)
deriving DecidableEq, Repr

def Update.source : Update → Source
  | heuristicStarted => .heuristic
  | heuristic _ => .heuristic
  | heuristicTimedOut => .heuristic
  | heuristicFailed => .heuristic
  | labelsCleared => .classifier
  | label .. => .classifier
  | batchStarted _ => .editScript
  | script .. => .editScript
  | batchFinished _ => .editScript
  | history .. => .history

/-- All candidates of a session. -/
structure Pool where
  status : HeuristicStatus
  /-- The heuristic resolutions of each block, the most confident first. -/
  resolutions : Table (List Resolution)
  /-- The merged reference. -/
  merged : Option (List String)
  /-- The last final answer gave no merged reference. -/
  noPatches : Bool
  labels : Table LabelCandidate
  batchPending : Bool
  /-- The id of the latest batch, 0 before the first. -/
  batch : UInt64
  scripts : Table ScriptOutcome
  /-- The history candidates of each block, the most confident first. -/
  history : Table (List HistoryCandidate)
deriving DecidableEq, Repr

/-- A proposed replacement for a block, in one form for all sources. -/
structure Candidate where
  source : Source
  block : Nat
  content : String
  confidence : Option Binary64
  label : Option String
  resolvable : Option Bool
deriving DecidableEq, Repr

namespace Pool

def empty : Pool where
  status := .idle
  resolutions := []
  merged := none
  noPatches := false
  labels := []
  batchPending := false
  batch := 0
  scripts := []
  history := []

/-- The number of history candidates that are looked at for a block. -/
def historyDepth : Nat := 2

/-- The most confident first; equals keep their order. -/
def byConfidence {α : Type} (confidence : α → Binary64) (items : List α) : List α :=
  items.mergeSort fun a b => decide ((confidence b).rank ≤ (confidence a).rank)

/-- Resolutions by the block they are for, in order. -/
def groupByBlock (resolutions : List Resolution) : Table (List Resolution) :=
  resolutions.foldl
    (fun table r => table.insert r.block ((table.get? r.block).getD [] ++ [r])) []

def withResolutions (pool : Pool) (resolutions : List Resolution) : Pool :=
  { pool with
    resolutions := (groupByBlock resolutions).map fun (block, list) =>
      (block, byConfidence Resolution.confidence list) }

/-- The pool without anything the heuristic source gave. -/
def clearHeuristic (pool : Pool) (status : HeuristicStatus) : Pool :=
  { pool with resolutions := [], noPatches := false, merged := none, status }

/-- The merged reference of a final answer, if it counts. -/
def referenceOf (report : Report) : Option (List String) :=
  report.merged.filter fun lines => !lines.isEmpty && !report.patchesEmpty

/-- The history candidates worth keeping, the most confident first. -/
def rankHistory (candidates : List HistoryCandidate) : List HistoryCandidate :=
  byConfidence HistoryCandidate.confidence
    ((candidates.take historyDepth).filter fun c => c.confidence.isPositive && c.content != "")

def trimOutcome : ScriptOutcome → ScriptOutcome
  | .resolvable text => .resolvable (Text.dropFinalNewline text)
  | .unresolvable => .unresolvable

/-- The pool after an update. -/
def commit (pool : Pool) : Update → Pool
  | .heuristicStarted => pool.clearHeuristic .pending
  | .heuristic report =>
    let pool := pool.withResolutions report.resolutions
    if report.pending then { pool with status := .pending }
    else
      let merged := referenceOf report
      { pool with status := .ready, noPatches := merged.isNone, merged }
  | .heuristicTimedOut => { pool with status := .timedOut }
  | .heuristicFailed => pool.clearHeuristic .failed
  | .labelsCleared => { pool with labels := [] }
  | .label block candidate => { pool with labels := pool.labels.insert block candidate }
  | .batchStarted batch => { pool with scripts := [], batchPending := true, batch }
  | .script batch block outcome =>
    if batch = pool.batch then
      { pool with scripts := pool.scripts.insert block (trimOutcome outcome) }
    else pool
  | .batchFinished batch =>
    if batch = pool.batch then { pool with batchPending := false } else pool
  | .history block candidates =>
    { pool with history := pool.history.insert block (rankHistory candidates) }

/-- The best heuristic resolution of a block. -/
def bestResolution? (pool : Pool) (block : Nat) : Option Resolution :=
  (pool.resolutions.get? block).bind List.head?

def label? (pool : Pool) (block : Nat) : Option LabelCandidate :=
  pool.labels.get? block

def script? (pool : Pool) (block : Nat) : Option ScriptOutcome :=
  pool.scripts.get? block

def historyOf (pool : Pool) (block : Nat) : List HistoryCandidate :=
  (pool.history.get? block).getD []

def scriptCandidate (block : Nat) : ScriptOutcome → Candidate
  | .resolvable text => ⟨.editScript, block, text, none, none, some true⟩
  | .unresolvable => ⟨.editScript, block, "", none, none, some false⟩

/-- Every candidate for a block, source by source. -/
def candidates (pool : Pool) (block : Nat) : List Candidate :=
  ((pool.resolutions.get? block).getD []).map
      (fun r => ⟨.heuristic, block, r.content, some r.confidence, some r.label, none⟩) ++
    (pool.label? block).toList.map
      (fun c => ⟨.classifier, block, c.content, some c.confidence, some c.label.code, none⟩) ++
    (if pool.batchPending then [] else (pool.script? block).toList.map (scriptCandidate block)) ++
    (pool.historyOf block).map
      (fun c => ⟨.history, block, c.content, some c.confidence, none, none⟩)

end Pool

end MergeConflict
