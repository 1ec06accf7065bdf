import MergeConflict.Session
import MergeConflict.Wire.Candidates

/-!
The JSON forms of file contexts, notices, choice records and snapshots.
-/

namespace MergeConflict

open Json (Decoder Field Variant)

namespace FileContext

def toJson (file : FileContext) : Json :=
  .obj [
    ("projectPath", .str file.project),
    ("targetBranch", .str file.targetBranch),
    ("sourceBranch", .str file.sourceBranch),
    ("filePath", .str file.path),
    ("absPath", .str file.fullPath),
    ("targetPath", .str file.targetCopy),
    ("sourcePath", .str file.sourceCopy),
    ("basePath", .str file.baseCopy),
    ("conflictPath", .str file.conflictCopy)]

def ofJson : Decoder FileContext :=
  Json.record blank [
    .required "projectPath" Json.string fun s r => { r with project := s },
    .required "targetBranch" Json.string fun s r => { r with targetBranch := s },
    .required "sourceBranch" Json.string fun s r => { r with sourceBranch := s },
    .required "filePath" Json.string fun s r => { r with path := s },
    .defaulted "absPath" Json.string fun s r => { r with fullPath := s },
    .defaulted "targetPath" Json.string fun s r => { r with targetCopy := s },
    .defaulted "sourcePath" Json.string fun s r => { r with sourceCopy := s },
    .defaulted "basePath" Json.string fun s r => { r with baseCopy := s },
    .defaulted "conflictPath" Json.string fun s r => { r with conflictCopy := s }]

end FileContext

namespace NoticeLevel

def toJson : NoticeLevel → Json
  | info => .str "info"
  | warning => .str "warning"
  | error => .str "error"

def ofJson : Decoder NoticeLevel :=
  Json.choice [("info", .bare info), ("warning", .bare warning), ("error", .bare error)]

end NoticeLevel

namespace Notice

def toJson (notice : Notice) : Json :=
  .obj [
    ("level", notice.level.toJson),
    ("source", .ofOption Source.toJson notice.source),
    ("message", .str notice.message)]

def ofJson : Decoder Notice :=
  Json.record ⟨.info, none, ""⟩ [
    .required "level" NoticeLevel.ofJson fun l r => { r with level := l },
    .nullable "source" Source.ofJson fun s r => { r with source := s },
    .required "message" Json.string fun s r => { r with message := s }]

end Notice

namespace ChoiceRecord

def toJson (record : ChoiceRecord) : Json :=
  .obj [
    ("projectPath", .str record.project),
    ("targetBranch", .str record.targetBranch),
    ("sourceBranch", .str record.sourceBranch),
    ("fileName", .str record.file),
    ("blockIdx", .ofNat record.index),
    ("blockResolutionChoice", record.audit.toJson)]

def ofJson : Decoder ChoiceRecord :=
  Json.record ⟨"", "", "", "", 0, Audit.blank⟩ [
    .required "projectPath" Json.string fun s r => { r with project := s },
    .required "targetBranch" Json.string fun s r => { r with targetBranch := s },
    .required "sourceBranch" Json.string fun s r => { r with sourceBranch := s },
    .required "fileName" Json.string fun s r => { r with file := s },
    .required "blockIdx" Json.index fun n r => { r with index := n },
    .required "blockResolutionChoice" Audit.ofJson fun a r => { r with audit := a }]

end ChoiceRecord

def BlockView.toJson (view : BlockView) : Json :=
  .obj [
    ("index", .ofNat view.number),
    ("block", view.block.toJson),
    ("fingerprint", .str ((view.print.map Fingerprint.hex).getD "")),
    ("located", .ofOption Interval.toJson view.located),
    ("candidates", .ofList Candidate.toJson view.candidates)]

/-- The fields of a snapshot, without those of the session that carries it. -/
def Snapshot.fields (snapshot : Snapshot) : List (String × Json) :=
  [("file", snapshot.file.toJson),
    ("content", .str snapshot.content),
    ("blocks", .ofList BlockView.toJson snapshot.blocks),
    ("outstanding", .ofList Block.toJson snapshot.outstanding),
    ("patches", .ofList Patch.toJson snapshot.patches),
    ("can_undo", .bool snapshot.canUndo),
    ("can_redo", .bool snapshot.canRedo),
    ("state", snapshot.state.toJson),
    ("heuristic_status", snapshot.status.toJson),
    ("no_patches", .bool snapshot.noPatches),
    ("dl_pending", .bool snapshot.batchPending),
    ("dl_batch", .ofNat snapshot.batch.toNat),
    ("notices", .ofList Notice.toJson snapshot.notices)]

end MergeConflict
