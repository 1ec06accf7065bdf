import MergeConflict.Engine.Request

/-!
What the engines answer, and what the answers mean to a pool.
-/

namespace MergeConflict

/-- A resolution as it is answered: the block by index, the content by lines. -/
structure AnsweredResolution where
  index : Nat
  note : String
  confidence : Binary64
  label : String
  code : List String
deriving DecidableEq, Repr

structure AnsweredPatch where
  start : Nat
  offset : Nat
  content : List String
deriving DecidableEq, Repr

structure HeuristicAnswer where
  pending : Bool
  resolutions : List AnsweredResolution
  merged : Option (List String)
  patches : Option (List AnsweredPatch)
deriving DecidableEq, Repr

/-- The answer in the terms of a pool. -/
def HeuristicAnswer.report (answer : HeuristicAnswer) : Report where
  pending := answer.pending
  resolutions := answer.resolutions.map fun r =>
    ⟨numberOf r.index, r.note, r.confidence, r.label, Text.joinLines r.code⟩
  merged := answer.merged
  patchesEmpty := answer.patches.any (·.isEmpty)

/-- An answer in its envelope, with a code that tells success. -/
structure HeuristicEnvelope where
  code : String
  message : Option String
  data : Option HeuristicAnswer
deriving DecidableEq, Repr

def HeuristicEnvelope.isSuccess (envelope : HeuristicEnvelope) : Bool :=
  envelope.code == "00000"

/-- A predicted strategy label for the block at an index. -/
structure Prediction where
  index : Nat
  label : String
  confidence : Binary64
deriving DecidableEq, Repr

/-- The code by which the classifier and the history tell success. -/
def successCode : Int := 200

structure LabelEnvelope where
  code : Int
  message : String
  data : List Prediction
deriving DecidableEq, Repr

structure CombineAnswer where
  successful : Bool
  data : Option String
  message : String
deriving DecidableEq, Repr

/-- A predicted text, whole or by lines. -/
inductive ScriptData where
  | lines (lines : List String)
  | text (text : String)
deriving DecidableEq, Repr

structure ScriptAnswer where
  successful : Bool
  data : Option ScriptData
  message : String
deriving DecidableEq, Repr

/-- No success is an outcome of its own, not an error. -/
def ScriptAnswer.outcome (answer : ScriptAnswer) : ScriptOutcome :=
  if answer.successful then
    match answer.data with
    | some (.lines lines) => .resolvable (Text.terminateLines lines)
    | some (.text text) => .resolvable text
    | none => .resolvable ""
  else .unresolvable

/-- Past resolutions of one block, each with its score. -/
structure HistoryRecord where
  truths : List String
  scores : List Binary64
deriving DecidableEq, Repr

/-- The first resolutions that have a score. -/
def HistoryRecord.candidates (record : HistoryRecord) : List HistoryCandidate :=
  ((record.truths.zip record.scores).take Pool.historyDepth).map fun (content, confidence) =>
    ⟨content, confidence⟩

structure HistoryEnvelope where
  code : Int
  message : String
  info : List HistoryRecord
deriving DecidableEq, Repr

end MergeConflict
