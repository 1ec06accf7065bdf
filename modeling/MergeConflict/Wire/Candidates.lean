import MergeConflict.Wire.Blocks

/-!
The JSON forms of candidates and of the updates that bring them into a pool.
-/

namespace MergeConflict

open Json (Decoder Field Variant)

def HeuristicStatus.toJson : HeuristicStatus → Json
  | idle => .str "idle"
  | pending => .str "pending"
  | ready => .str "ready"
  | timedOut => .str "timed_out"
  | failed => .str "failed"

namespace Resolution

def toJson (r : Resolution) : Json :=
  .obj [
    ("index", .ofNat r.block),
    ("desc", .str r.note),
    ("confidence", .real r.confidence),
    ("label", .str r.label),
    ("content", .str r.content)]

def ofJson : Decoder Resolution :=
  Json.record ⟨0, "", .zero, "", ""⟩ [
    .required "index" Json.index fun n r => { r with block := n },
    .required "desc" Json.string fun s r => { r with note := s },
    .required "confidence" Json.double fun x r => { r with confidence := x },
    .required "label" Json.string fun s r => { r with label := s },
    .required "content" Json.string fun s r => { r with content := s }]

end Resolution

namespace Report

def blank : Report := ⟨false, [], none, false⟩

def fields (report : Report) : List (String × Json) :=
  [("pending", .bool report.pending),
    ("resolutions", .ofList Resolution.toJson report.resolutions),
    ("merged", .ofOption .ofStrings report.merged),
    ("patches_empty", .bool report.patchesEmpty)]

def toJson (report : Report) : Json :=
  .obj report.fields

def ofJson : Decoder Report :=
  Json.record blank [
    .required "pending" Json.boolean fun b r => { r with pending := b },
    .required "resolutions" (Json.list Resolution.ofJson) fun l r => { r with resolutions := l },
    .nullable "merged" Json.strings fun l r => { r with merged := l },
    .defaulted "patches_empty" Json.boolean fun b r => { r with patchesEmpty := b }]

end Report

namespace Label

def toJson (label : Label) : Json :=
  .str label.code

/-- A label is read as part of an update, which is buffered. -/
def ofJson : Decoder Label :=
  Json.bufferedChoice (all.map fun label => (label.code, .bare label))

end Label

namespace LabelCandidate

def toJson (c : LabelCandidate) : Json :=
  .obj [
    ("label", c.label.toJson),
    ("confidence", .real c.confidence),
    ("content", .str c.content)]

def ofJson : Decoder LabelCandidate :=
  Json.record ⟨.ours, .zero, ""⟩ [
    .required "label" Label.ofJson fun l r => { r with label := l },
    .required "confidence" Json.double fun x r => { r with confidence := x },
    .required "content" Json.string fun s r => { r with content := s }]

end LabelCandidate

namespace ScriptOutcome

def toJson : ScriptOutcome → Json
  | resolvable text => .obj [("resolvable", .str text)]
  | unresolvable => .str "unresolvable"

def variants : List (String × Variant ScriptOutcome) := [
  ("resolvable", .holding fun value => (Json.string value).map resolvable),
  ("unresolvable", .bare unresolvable)]

def ofJson : Decoder ScriptOutcome :=
  Json.choice variants

/-- The outcome in an update, which is buffered. -/
def ofBuffered : Decoder ScriptOutcome :=
  Json.bufferedChoice variants

end ScriptOutcome

namespace HistoryCandidate

def toJson (c : HistoryCandidate) : Json :=
  .obj [("content", .str c.content), ("confidence", .real c.confidence)]

def ofJson : Decoder HistoryCandidate :=
  Json.record ⟨"", .zero⟩ [
    .required "content" Json.string fun s r => { r with content := s },
    .required "confidence" Json.double fun x r => { r with confidence := x }]

end HistoryCandidate

namespace Update

def toJson : Update → Json
  | heuristicStarted => .obj [("kind", .str "heuristic_started")]
  | heuristic report => .obj (("kind", .str "heuristic") :: report.fields)
  | heuristicTimedOut => .obj [("kind", .str "heuristic_timed_out")]
  | heuristicFailed => .obj [("kind", .str "heuristic_failed")]
  | labelsCleared => .obj [("kind", .str "ml_cleared")]
  | label block candidate =>
    .obj [("kind", .str "ml"), ("block", .ofNat block), ("candidate", candidate.toJson)]
  | batchStarted batch => .obj [("kind", .str "dl_started"), ("batch", .ofNat batch.toNat)]
  | script batch block outcome =>
    .obj [("kind", .str "dl"), ("batch", .ofNat batch.toNat), ("block", .ofNat block),
      ("outcome", outcome.toJson)]
  | batchFinished batch => .obj [("kind", .str "dl_finished"), ("batch", .ofNat batch.toNat)]
  | history block candidates =>
    .obj [("kind", .str "history"), ("block", .ofNat block),
      ("candidates", .ofList HistoryCandidate.toJson candidates)]

def batchOf : Decoder UInt64 := fun value =>
  (Json.index value).map UInt64.ofNat

/-- The decoder of each kind, for the fields beside the kind. -/
def kinds : List (String × Decoder Update) := [
  ("heuristic_started", Json.record heuristicStarted []),
  ("heuristic", fun value => (Report.ofJson value).map heuristic),
  ("heuristic_timed_out", Json.record heuristicTimedOut []),
  ("heuristic_failed", Json.record heuristicFailed []),
  ("ml_cleared", Json.record labelsCleared []),
  ("ml", fun value =>
    (Json.record ((0, ⟨.ours, .zero, ""⟩) : Nat × LabelCandidate) [
      .required "block" Json.index fun n r => (n, r.2),
      .required "candidate" LabelCandidate.ofJson fun c r => (r.1, c)] value).map
      fun r => label r.1 r.2),
  ("dl_started", fun value =>
    (Json.record (0 : UInt64) [.required "batch" batchOf fun b _ => b] value).map batchStarted),
  ("dl", fun value =>
    (Json.record ((0, 0, .unresolvable) : UInt64 × Nat × ScriptOutcome) [
      .required "batch" batchOf fun b r => (b, r.2),
      .required "block" Json.index fun n r => (r.1, n, r.2.2),
      .required "outcome" ScriptOutcome.ofBuffered fun o r => (r.1, r.2.1, o)] value).map
      fun r => script r.1 r.2.1 r.2.2),
  ("dl_finished", fun value =>
    (Json.record (0 : UInt64) [.required "batch" batchOf fun b _ => b] value).map batchFinished),
  ("history", fun value =>
    (Json.record ((0, []) : Nat × List HistoryCandidate) [
      .required "block" Json.index fun n r => (n, r.2),
      .required "candidates" (Json.list HistoryCandidate.ofJson) fun l r => (r.1, l)] value).map
      fun r => history r.1 r.2)]

/-- An update is told apart by its field `kind`, or by the first item of an array. -/
def ofJson : Decoder Update :=
  Json.taggedBy "kind" kinds

end Update

namespace Candidate

def toJson (c : Candidate) : Json :=
  .obj [
    ("source", c.source.toJson),
    ("block_index", .ofNat c.block),
    ("content", .str c.content),
    ("confidence", .ofOption .real c.confidence),
    ("label", .ofOption .str c.label),
    ("resolvable", .ofOption .bool c.resolvable)]

def ofJson : Decoder Candidate :=
  Json.record ⟨.heuristic, 0, "", none, none, none⟩ [
    .required "source" Source.ofJson fun s r => { r with source := s },
    .required "block_index" Json.index fun n r => { r with block := n },
    .required "content" Json.string fun s r => { r with content := s },
    .nullable "confidence" Json.double fun x r => { r with confidence := x },
    .nullable "label" Json.string fun s r => { r with label := s },
    .nullable "resolvable" Json.boolean fun b r => { r with resolvable := b }]

end Candidate

end MergeConflict
