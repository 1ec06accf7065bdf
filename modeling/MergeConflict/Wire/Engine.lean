import MergeConflict.Engine.Response
import MergeConflict.Wire.Session

/-!
The JSON forms of the requests to the engines and of their answers.
-/

namespace MergeConflict

open Json (Decoder Field Variant)

namespace HeuristicRequest

def toJson (r : HeuristicRequest) : Json :=
  .obj [
    ("path", .str r.project),
    ("ms", .obj [("ours", .str r.ours), ("theirs", .str r.theirs)]),
    ("file", .str r.file)]

def branches : Decoder (String × String) :=
  Json.record ("", "") [
    .required "ours" Json.string fun s r => (s, r.2),
    .required "theirs" Json.string fun s r => (r.1, s)]

def ofJson : Decoder HeuristicRequest :=
  Json.record ⟨"", "", "", ""⟩ [
    .required "path" Json.string fun s r => { r with project := s },
    .required "ms" branches fun b r => { r with ours := b.1, theirs := b.2 },
    .required "file" Json.string fun s r => { r with file := s }]

end HeuristicRequest

namespace LabelRequest

def toJson (r : LabelRequest) : Json :=
  .obj [
    ("path", .str r.project),
    ("target", .str r.targetBranch),
    ("source", .str r.sourceBranch),
    ("version1", .str r.ours),
    ("version2", .str r.theirs),
    ("conflict", .str r.conflict),
    ("base", .str r.base),
    ("filetype", .str r.language)]

def ofJson : Decoder LabelRequest :=
  Json.record ⟨"", "", "", "", "", "", "", ""⟩ [
    .required "path" Json.string fun s r => { r with project := s },
    .required "target" Json.string fun s r => { r with targetBranch := s },
    .required "source" Json.string fun s r => { r with sourceBranch := s },
    .required "version1" Json.string fun s r => { r with ours := s },
    .required "version2" Json.string fun s r => { r with theirs := s },
    .required "conflict" Json.string fun s r => { r with conflict := s },
    .required "base" Json.string fun s r => { r with base := s },
    .required "filetype" Json.string fun s r => { r with language := s }]

end LabelRequest

namespace CombineRequest

def toJson (r : CombineRequest) : Json :=
  .obj [("version1", .str r.ours), ("version2", .str r.theirs), ("base", .str r.base)]

def ofJson : Decoder CombineRequest :=
  Json.record ⟨"", "", ""⟩ [
    .required "version1" Json.string fun s r => { r with ours := s },
    .required "version2" Json.string fun s r => { r with theirs := s },
    .required "base" Json.string fun s r => { r with base := s }]

end CombineRequest

namespace ScriptRequest

def toJson (r : ScriptRequest) : Json :=
  .obj [("base", .str r.base), ("ours", .str r.ours), ("theirs", .str r.theirs)]

def ofJson : Decoder ScriptRequest :=
  Json.record ⟨"", "", ""⟩ [
    .required "base" Json.string fun s r => { r with base := s },
    .required "ours" Json.string fun s r => { r with ours := s },
    .required "theirs" Json.string fun s r => { r with theirs := s }]

end ScriptRequest

namespace HistoryQuery

def toJson (q : HistoryQuery) : Json :=
  .obj [("filePath", .str q.file), ("repo", .str q.repository), ("fileType", .ofNat q.fileType)]

def ofJson : Decoder HistoryQuery :=
  Json.record ⟨"", "", 0⟩ [
    .required "filePath" Json.string fun s r => { r with file := s },
    .required "repo" Json.string fun s r => { r with repository := s },
    .required "fileType" (Json.natural 8) fun n r => { r with fileType := n }]

end HistoryQuery

namespace AnsweredResolution

def toJson (r : AnsweredResolution) : Json :=
  .obj [
    ("index", .ofNat r.index),
    ("desc", .str r.note),
    ("confidence", .real r.confidence),
    ("label", .str r.label),
    ("code", .ofStrings r.code)]

def ofJson : Decoder AnsweredResolution :=
  Json.record ⟨0, "", .zero, "", []⟩ [
    .required "index" Json.index fun n r => { r with index := n },
    .defaulted "desc" Json.string fun s r => { r with note := s },
    .defaulted "confidence" Json.double fun x r => { r with confidence := x },
    .defaulted "label" Json.string fun s r => { r with label := s },
    .defaulted "code" Json.strings fun l r => { r with code := l }]

end AnsweredResolution

namespace AnsweredPatch

def toJson (p : AnsweredPatch) : Json :=
  .obj [
    ("start", .ofNat p.start),
    ("offset", .ofNat p.offset),
    ("content", .ofStrings p.content)]

def ofJson : Decoder AnsweredPatch :=
  Json.record ⟨0, 0, []⟩ [
    .required "start" Json.index fun n r => { r with start := n },
    .required "offset" Json.index fun n r => { r with offset := n },
    .defaulted "content" Json.strings fun l r => { r with content := l }]

end AnsweredPatch

namespace HeuristicAnswer

def toJson (a : HeuristicAnswer) : Json :=
  .obj [
    ("pending", .bool a.pending),
    ("resolutions", .ofList AnsweredResolution.toJson a.resolutions),
    ("merged", .ofOption .ofStrings a.merged),
    ("patches", .ofOption (.ofList AnsweredPatch.toJson) a.patches)]

def ofJson : Decoder HeuristicAnswer :=
  Json.record ⟨false, [], none, none⟩ [
    .defaulted "pending" Json.boolean fun b r => { r with pending := b },
    .defaulted "resolutions" (Json.list AnsweredResolution.ofJson)
      fun l r => { r with resolutions := l },
    .defaulted "merged" (Json.option Json.strings) fun l r => { r with merged := l },
    .defaulted "patches" (Json.option (Json.list AnsweredPatch.ofJson))
      fun l r => { r with patches := l }]

end HeuristicAnswer

namespace HeuristicEnvelope

def toJson (e : HeuristicEnvelope) : Json :=
  .obj [
    ("code", .str e.code),
    ("msg", .ofOption .str e.message),
    ("data", .ofOption HeuristicAnswer.toJson e.data)]

def ofJson : Decoder HeuristicEnvelope :=
  Json.record ⟨"", none, none⟩ [
    .required "code" Json.string fun s r => { r with code := s },
    .defaulted "msg" (Json.option Json.string) fun s r => { r with message := s },
    .defaulted "data" (Json.option HeuristicAnswer.ofJson) fun a r => { r with data := a }]

end HeuristicEnvelope

/-- An integer of 64 bits with a sign. -/
def integer64 : Decoder Int := Json.integer (-0x8000000000000000) 0x7fffffffffffffff

namespace Prediction

def toJson (p : Prediction) : Json :=
  .obj [
    ("index", .ofNat p.index),
    ("label", .str p.label),
    ("confidence", .real p.confidence)]

def ofJson : Decoder Prediction :=
  Json.record ⟨0, "", .zero⟩ [
    .required "index" Json.index fun n r => { r with index := n },
    .required "label" Json.string fun s r => { r with label := s },
    .defaulted "confidence" Json.double fun x r => { r with confidence := x }]

end Prediction

namespace LabelEnvelope

def toJson (e : LabelEnvelope) : Json :=
  .obj [
    ("code", .int e.code),
    ("msg", .str e.message),
    ("data", .ofList Prediction.toJson e.data)]

def ofJson : Decoder LabelEnvelope :=
  Json.record ⟨0, "", []⟩ [
    .required "code" integer64 fun i r => { r with code := i },
    .defaulted "msg" Json.string fun s r => { r with message := s },
    .defaulted "data" (Json.list Prediction.ofJson) fun l r => { r with data := l }]

end LabelEnvelope

namespace CombineAnswer

def toJson (a : CombineAnswer) : Json :=
  .obj [
    ("isSuccessful", .bool a.successful),
    ("data", .ofOption .str a.data),
    ("msg", .str a.message)]

def ofJson : Decoder CombineAnswer :=
  Json.record ⟨false, none, ""⟩ [
    .required "isSuccessful" Json.boolean fun b r => { r with successful := b },
    .defaulted "data" (Json.option Json.string) fun s r => { r with data := s },
    .defaulted "msg" Json.string fun s r => { r with message := s }]

end CombineAnswer

namespace ScriptData

def toJson : ScriptData → Json
  | lines l => .ofStrings l
  | text s => .str s

/-- The value is read before it is told whether it is a text or a list; an answer stands around
it. -/
def ofJson : Decoder ScriptData :=
  Json.buffered 1 fun value =>
    match value with
    | .str s => .ok (text s)
    | value => (Json.strings value).map lines

end ScriptData

namespace ScriptAnswer

def toJson (a : ScriptAnswer) : Json :=
  .obj [
    ("isSuccessful", .bool a.successful),
    ("data", .ofOption ScriptData.toJson a.data),
    ("msg", .str a.message)]

def ofJson : Decoder ScriptAnswer :=
  Json.record ⟨false, none, ""⟩ [
    .required "isSuccessful" Json.boolean fun b r => { r with successful := b },
    { Field.defaulted "data" (Json.option ScriptData.ofJson) fun d r => { r with data := d } with
      secondName := some "resolution" },
    .defaulted "msg" Json.string fun s r => { r with message := s }]

end ScriptAnswer

namespace HistoryRecord

def toJson (r : HistoryRecord) : Json :=
  .obj [("historyTruth", .ofStrings r.truths), ("truthScore", .ofList .real r.scores)]

def ofJson : Decoder HistoryRecord :=
  Json.record ⟨[], []⟩ [
    .defaulted "historyTruth" Json.strings fun l r => { r with truths := l },
    .defaulted "truthScore" (Json.list Json.double) fun l r => { r with scores := l }]

end HistoryRecord

namespace HistoryEnvelope

def toJson (e : HistoryEnvelope) : Json :=
  .obj [
    ("code", .int e.code),
    ("msg", .str e.message),
    ("info", .ofList HistoryRecord.toJson e.info)]

def ofJson : Decoder HistoryEnvelope :=
  Json.record ⟨0, "", []⟩ [
    .required "code" integer64 fun i r => { r with code := i },
    .defaulted "msg" Json.string fun s r => { r with message := s },
    .defaulted "info" (Json.list HistoryRecord.ofJson) fun l r => { r with info := l }]

end HistoryEnvelope

end MergeConflict
