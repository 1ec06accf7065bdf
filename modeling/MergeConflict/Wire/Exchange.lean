import MergeConflict.Engine.Exchange

/-!
Questions, calls and replies as JSON, for a record of what engines were asked and what they said.
-/

namespace MergeConflict

namespace Question

def requestJson : Question → Json
  | heuristic request => request.toJson
  | classifier request => request.toJson
  | combiner request => request.toJson
  | editScript request => request.toJson
  | history query => query.toJson
  | audit record => record.toJson

/-- The engine's name and the request. -/
def toJson (question : Question) : Json :=
  .arr [.str question.kind.name, question.requestJson]

/-- Reads the request of a question to an engine. -/
def ofRequestJson (kind : EngineKind) : Json.Decoder Question := fun value =>
  match kind with
  | .heuristic => heuristic <$> HeuristicRequest.ofJson value
  | .classifier => classifier <$> LabelRequest.ofJson value
  | .combiner => combiner <$> CombineRequest.ofJson value
  | .editScript => editScript <$> ScriptRequest.ofJson value
  | .history => history <$> HistoryQuery.ofJson value
  | .audit => audit <$> ChoiceRecord.ofJson value

end Question

def EngineReply.toJson : EngineReply → Json
  | .report answer => answer.toJson
  | .predictions answer => .ofList Prediction.toJson answer
  | .content text => .str text
  | .outcome answer => answer.toJson
  | .records answer => .ofList HistoryRecord.toJson answer
  | .recorded => .null

def EngineCall.toJson (call : EngineCall) : Json :=
  .obj [
    ("method", .str call.method),
    ("path", .str call.path),
    ("query", .ofOption .str call.query),
    ("type", .ofOption (fun _ => .str "application/json") call.body),
    ("body", call.body.getD .null)]

end MergeConflict
