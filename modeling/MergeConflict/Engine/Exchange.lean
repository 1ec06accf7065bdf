import MergeConflict.Engine.Failure
import MergeConflict.Http.Status
import MergeConflict.Http.Target
import MergeConflict.Text.Blank
import MergeConflict.Wire.Engine
import MergeConflict.Wire.Session

/-!
Questions to engines as HTTP requests, and what the responses mean.

An engine that cannot be reached, or whose response is not the JSON that is expected, is a network
error. A status that is no success, and an envelope that tells of none, reject the question.
-/

namespace MergeConflict

/-- A request as it goes to an engine. -/
structure EngineCall where
  method : String
  path : String
  query : Option String
  body : Option Json

/-- What an engine answers to a question. -/
inductive EngineReply where
  | report (report : Report)
  | predictions (predictions : List Prediction)
  | content (text : String)
  | outcome (outcome : ScriptOutcome)
  | records (records : List HistoryRecord)
  | recorded
deriving DecidableEq, Repr

/-- The address of an engine, less every slash at its end. -/
def baseAddress (address : String) : String :=
  Text.dropFinalSlashes address

namespace Question

/-- The path of an engine behind its base address. -/
def path : Question → String
  | heuristic _ => "/resolve"
  | classifier _ => "/predict"
  | combiner _ => "/combine"
  | editScript _ => "/es_predict"
  | history _ => "/conflict/specified"
  | audit _ => "/audit/choice/save"

def post (target : Http.Target) (body : Json) : EngineCall :=
  ⟨"POST", target.path, target.query, some body⟩

/-- The request that asks the question at a target. -/
def callAt (target : Http.Target) : Question → EngineCall
  | heuristic request => post target request.toJson
  | classifier request => post target request.toJson
  | combiner request => post target request.toJson
  | editScript request => post target request.toJson
  | history query =>
    let target := target.withFields [("filePath", query.file), ("repo", query.repository),
      ("fileType", toString query.fileType)]
    ⟨"GET", target.path, target.query, none⟩
  | audit record => post target record.toJson

/-- The request that asks the question of the engine behind a host and what follows it in the base
address; none where that is no address. -/
def call? (base : String) (question : Question) : Option EngineCall :=
  (Http.Target.ofText? (base ++ question.path)).map question.callAt

end Question

namespace EngineReply

def expect {α : Type} (decode : Json.Decoder α) (body : String) : Except EngineError α :=
  (Json.ofText decode body).mapError fun _ => .network

def ofHeuristic (body : String) : Except EngineError EngineReply := do
  let envelope ← expect HeuristicEnvelope.ofJson body
  if envelope.isSuccess then
    match envelope.data with
    | some answer => return report answer.report
    | none => throw (.rejected .heuristic "response carried no data")
  else throw (.rejected .heuristic (envelope.message.getD ("unexpected code " ++ envelope.code)))

def ofClassifier (body : String) : Except EngineError EngineReply := do
  let envelope ← expect LabelEnvelope.ofJson body
  if envelope.code = successCode then return predictions envelope.data
  else throw (.rejected .classifier envelope.message)

def ofCombiner (body : String) : Except EngineError EngineReply := do
  let answer ← expect CombineAnswer.ofJson body
  if answer.successful then return content (answer.data.getD "")
  else throw (.rejected .combiner answer.message)

def ofEditScript (body : String) : Except EngineError EngineReply := do
  let answer ← expect ScriptAnswer.ofJson body
  return outcome answer.outcome

def ofHistory (body : String) : Except EngineError EngineReply := do
  let envelope ← expect HistoryEnvelope.ofJson body
  if envelope.code = successCode then return records envelope.info
  else throw (.rejected .history envelope.message)

/-- What a response of an engine means; the audit is only asked for its status. -/
def ofResponse (kind : EngineKind) (status : Nat) (body : String) :
    Except EngineError EngineReply :=
  let body := if Http.carriesBody status then body else ""
  if !Http.isFinal status then .error .network
  else if Http.isSuccess status then
    match kind with
    | .heuristic => ofHeuristic body
    | .classifier => ofClassifier body
    | .combiner => ofCombiner body
    | .editScript => ofEditScript body
    | .history => ofHistory body
    | .audit => .ok recorded
  else .error (.rejected kind (Http.statusLine status ++ ": " ++ Text.dropByteOrderMark body))

end EngineReply

end MergeConflict
