import MergeConflict.Buffer
import MergeConflict.Json.Decoder

/-!
The JSON forms of blocks, hunks, patches, choices and transitions.
-/

namespace MergeConflict

open Json (Decoder Field Variant)

namespace Interval

def toJson (at' : Interval) : Json :=
  .obj [("start", .ofNat at'.first), ("end", .ofNat at'.last)]

def ofJson : Decoder Interval :=
  Json.record ⟨0, 0⟩ [
    .required "start" Json.index fun n r => { r with first := n },
    .required "end" Json.index fun n r => { r with last := n }]

end Interval

namespace Block

def toJson (block : Block) : Json :=
  .obj [
    ("our_marker_line", .ofNat block.startLine),
    ("base_marker_line", .ofOption .ofNat block.baseLine),
    ("their_marker_line", .ofNat block.midLine),
    ("end_marker_line", .ofNat block.endLine)]

def ofJson : Decoder Block :=
  Json.record ⟨0, none, 0, 0⟩ [
    .required "our_marker_line" Json.index fun n r => { r with startLine := n },
    .nullable "base_marker_line" Json.index fun n r => { r with baseLine := n },
    .required "their_marker_line" Json.index fun n r => { r with midLine := n },
    .required "end_marker_line" Json.index fun n r => { r with endLine := n }]

end Block

namespace Sides

def toJson (sides : Sides) : Json :=
  .obj [
    ("ours", .ofStrings sides.ours),
    ("base", .ofOption .ofStrings sides.base),
    ("theirs", .ofStrings sides.theirs)]

def ofJson : Decoder Sides :=
  Json.record ⟨[], none, []⟩ [
    .required "ours" Json.strings fun l r => { r with ours := l },
    .nullable "base" Json.strings fun l r => { r with base := l },
    .required "theirs" Json.strings fun l r => { r with theirs := l }]

end Sides

namespace Hunk

def toJson (hunk : Hunk) : Json :=
  .obj [
    ("start", .ofNat hunk.start),
    ("offset", .ofNat hunk.offset),
    ("old_lines", .ofStrings hunk.oldLines),
    ("new_lines", .ofStrings hunk.newLines)]

def ofJson : Decoder Hunk :=
  Json.record ⟨0, 0, [], []⟩ [
    .required "start" Json.index fun n r => { r with start := n },
    .required "offset" Json.index fun n r => { r with offset := n },
    .required "old_lines" Json.strings fun l r => { r with oldLines := l },
    .required "new_lines" Json.strings fun l r => { r with newLines := l }]

end Hunk

namespace Patch

def toJson (patch : Patch) : Json :=
  .obj [
    ("start", .ofNat patch.start),
    ("offset", .ofNat patch.offset),
    ("new_lines", .ofStrings patch.newLines)]

def ofJson : Decoder Patch :=
  Json.record ⟨0, 0, []⟩ [
    .required "start" Json.index fun n r => { r with start := n },
    .required "offset" Json.index fun n r => { r with offset := n },
    .required "new_lines" Json.strings fun l r => { r with newLines := l }]

end Patch

namespace Side

def toJson (side : Side) : Json :=
  .str side.name

def ofJson : Decoder Side :=
  Json.choice [("ours", .bare ours), ("base", .bare base), ("theirs", .bare theirs)]

end Side

namespace Source

def toJson (source : Source) : Json :=
  .str source.name

def ofJson : Decoder Source :=
  Json.choice [("heuristic", .bare heuristic), ("ml", .bare classifier),
    ("dl", .bare editScript), ("history", .bare history)]

end Source

namespace Choice

def toJson : Choice → Json
  | side which => .obj [("side", which.toJson)]
  | heuristic => .str "heuristic"
  | patch index => .obj [("semantic_patch", .ofNat index)]
  | classifier => .str "ml"
  | editScript => .str "dl"
  | history rank => .obj [("history", .obj [("rank", .ofNat rank)])]

def ofJson : Decoder Choice :=
  Json.choice [
    ("side", .holding fun value => (Side.ofJson value).map side),
    ("heuristic", .bare heuristic),
    ("semantic_patch", .holding fun value => (Json.index value).map patch),
    ("ml", .bare classifier),
    ("dl", .bare editScript),
    ("history", .holding fun value =>
      (Json.record 0 [.required "rank" Json.index fun n _ => n] value).map history)]

end Choice

namespace Request

def toJson (request : Request) : Json :=
  .obj [("block", .ofNat request.block), ("choice", request.choice.toJson)]

def ofJson : Decoder Request :=
  Json.record ⟨0, .heuristic⟩ [
    .required "block" Json.index fun n r => { r with block := n },
    .required "choice" Choice.ofJson fun c r => { r with choice := c }]

end Request

namespace Audit

def blank : Audit := ⟨"", "", "", "", ""⟩

def toJson (audit : Audit) : Json :=
  .obj [
    ("choice", .str audit.choice),
    ("choiceCode", .str audit.choiceCode),
    ("saCode", .str audit.heuristicCode),
    ("mlCode", .str audit.labelCode),
    ("dlCode", .str audit.scriptCode)]

def ofJson : Decoder Audit :=
  Json.record blank [
    .required "choice" Json.string fun s r => { r with choice := s },
    .required "choiceCode" Json.string fun s r => { r with choiceCode := s },
    .required "saCode" Json.string fun s r => { r with heuristicCode := s },
    .required "mlCode" Json.string fun s r => { r with labelCode := s },
    .required "dlCode" Json.string fun s r => { r with scriptCode := s }]

end Audit

def BufferState.toJson : BufferState → Json
  | clean => .str "clean"
  | dirty => .str "dirty"

def Transition.toJson (transition : Transition) : Json :=
  .obj [
    ("kind", .str transition.kind.name),
    ("outstanding", .ofNat transition.outstanding),
    ("patches", .ofNat transition.patches),
    ("can_undo", .bool transition.canUndo),
    ("can_redo", .bool transition.canRedo),
    ("state", transition.state.toJson)]

namespace Algorithm

def toJson (algorithm : Algorithm) : Json :=
  .str algorithm.name

def ofJson : Decoder Algorithm :=
  Json.choice [("lines", .bare lines), ("tokens", .bare tokens)]

end Algorithm

end MergeConflict
