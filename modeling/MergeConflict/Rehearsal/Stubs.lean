import MergeConflict.Engine.Failure
import MergeConflict.EngineSet

/-!
Engines that answer from a list of cues, each after a delay on a clock that somebody else moves.
-/

namespace MergeConflict

/-- What an engine does when it is asked. -/
inductive Act (α : Type) where
  | answer (value : α)
  | fail (failure : Failure)
  /-- Takes down whoever asks. -/
  | crash
  /-- Never answers. -/
  | stall
  /-- Answers what the request suggests. -/
  | oblige
deriving Repr

/-- What an engine does for one question, and after how long. -/
structure Cue (α : Type) where
  delay : Nat
  act : Act α
deriving Repr

/-- A question on its way: when its answer is due, if ever, and the answer; none where the asker
crashes instead. -/
structure Call (α : Type) where
  due : Option Nat
  answer : Option (Except Failure α)

namespace Call

variable {α : Type}

def isDue (now : Nat) (call : Call α) : Bool :=
  call.due.any fun due => decide (due ≤ now)

/-- The call that a cue makes of a question; `suggested` is what an obliging engine answers. -/
def ofCue (now : Nat) (suggested : α) (cue : Cue α) : Call α :=
  let due := some (now + cue.delay)
  match cue.act with
  | .answer value => ⟨due, some (.ok value)⟩
  | .fail failure => ⟨due, some (.error failure)⟩
  | .crash => ⟨due, none⟩
  | .stall => ⟨none, none⟩
  | .oblige => ⟨due, some (.ok suggested)⟩

/-- The call that the next cue makes, and the cues behind it; without cues an engine obliges. -/
def ofCues (now : Nat) (suggested : α) (cues : Option (List (Cue α))) :
    Call α × Option (List (Cue α)) :=
  match cues with
  | some (cue :: rest) => (ofCue now suggested cue, some rest)
  | _ => (ofCue now suggested ⟨0, .oblige⟩, cues)

end Call

/-- The cues of each engine in use, and the questions so far. -/
structure Stubs where
  heuristic : Option (List (Cue Report))
  classifier : Option (List (Cue (List Prediction)))
  combiner : Option (List (Cue String))
  editScript : Option (List (Cue ScriptOutcome))
  history : Option (List (Cue (List HistoryRecord)))
  audit : Option (List (Cue Unit))
  asked : List Question

namespace Stubs

/-- No engine. -/
def blank : Stubs := ⟨none, none, none, none, none, none, []⟩

def has (stubs : Stubs) : EngineKind → Bool
  | .heuristic => stubs.heuristic.isSome
  | .classifier => stubs.classifier.isSome
  | .combiner => stubs.combiner.isSome
  | .editScript => stubs.editScript.isSome
  | .history => stubs.history.isSome
  | .audit => stubs.audit.isSome

/-- The engines in use. -/
def engines (stubs : Stubs) : EngineSet :=
  ⟨EngineKind.all.filter stubs.has⟩

/-- The questions so far, engine by engine. -/
def askedByKind (stubs : Stubs) : List Question :=
  EngineKind.all.flatMap fun kind => stubs.asked.filter (·.kind = kind)

def forget (stubs : Stubs) : Stubs :=
  { stubs with asked := [] }

def note (stubs : Stubs) (question : Question) : Stubs :=
  { stubs with asked := stubs.asked ++ [question] }

/-- Still pending, and nothing found yet. -/
def noReport : Report := ⟨true, [], none, false⟩

def askHeuristic (stubs : Stubs) (now : Nat) (request : HeuristicRequest) : Call Report × Stubs :=
  let (call, cues) := Call.ofCues now noReport stubs.heuristic
  (call, { stubs with heuristic := cues }.note (.heuristic request))

def askClassifier (stubs : Stubs) (now : Nat) (request : LabelRequest) :
    Call (List Prediction) × Stubs :=
  let (call, cues) := Call.ofCues now [] stubs.classifier
  (call, { stubs with classifier := cues }.note (.classifier request))

def askCombiner (stubs : Stubs) (now : Nat) (request : CombineRequest) : Call String × Stubs :=
  let sides := request.ours ++ "|" ++ request.base ++ "|" ++ request.theirs
  let (call, cues) := Call.ofCues now sides stubs.combiner
  (call, { stubs with combiner := cues }.note (.combiner request))

def askScript (stubs : Stubs) (now : Nat) (request : ScriptRequest) :
    Call ScriptOutcome × Stubs :=
  let (call, cues) := Call.ofCues now (.resolvable request.theirs) stubs.editScript
  (call, { stubs with editScript := cues }.note (.editScript request))

def askHistory (stubs : Stubs) (now : Nat) (query : HistoryQuery) :
    Call (List HistoryRecord) × Stubs :=
  let (call, cues) := Call.ofCues now [] stubs.history
  (call, { stubs with history := cues }.note (.history query))

def askAudit (stubs : Stubs) (now : Nat) (record : ChoiceRecord) : Call Unit × Stubs :=
  let (call, cues) := Call.ofCues now () stubs.audit
  (call, { stubs with audit := cues }.note (.audit record))

end Stubs

end MergeConflict
