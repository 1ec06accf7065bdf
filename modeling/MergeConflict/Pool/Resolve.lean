import MergeConflict.Patch
import MergeConflict.Pool

/-!
The lines that a choice puts into a block, with the record kept for the audit.
-/

namespace MergeConflict

/-- What is audited of an applied choice: the choice, its text, and the text each source had to
offer, as far as the choice gives a reason to compare. -/
structure Audit where
  choice : String
  choiceCode : String
  heuristicCode : String
  labelCode : String
  scriptCode : String
deriving DecidableEq, Repr

/-- The replacement that a choice stands for. -/
structure Resolved where
  lines : List String
  content : String
  audit : Audit
deriving DecidableEq, Repr

/-- What a choice is looked up in, besides the pool. -/
structure Setting where
  loaded : List String
  blocks : List Block
  patches : List Patch
  /-- The patches at the time the merged reference last changed. -/
  initialPatches : List Patch
deriving DecidableEq, Repr

namespace Pool

/-- The first of the patches with the largest overlap with a block. -/
def widestOverlap? (conflict : Block) (patches : List Patch) : Option Patch :=
  (patches.foldl
    (fun (best : Option Patch × Nat) patch =>
      let overlap := conflict.overlap patch.start patch.lastLine
      if best.2 < overlap then (some patch, overlap) else best)
    (none, 0)).1

/-- The heuristic text to compare a side with: the initial patch that overlaps the block most, or
else the block's best resolution. -/
def heuristicCode (pool : Pool) (block : Nat) (conflict : Block) (initial : List Patch) : String :=
  match widestOverlap? conflict initial with
  | some patch => patch.content
  | none => ((pool.bestResolution? block).map Resolution.content).getD ""

def labelCode (pool : Pool) (block : Nat) : String :=
  ((pool.label? block).map LabelCandidate.content).getD ""

def scriptCode (pool : Pool) (block : Nat) : String :=
  if pool.batchPending then ""
  else
    match pool.script? block with
    | some (.resolvable text) => text
    | _ => ""

/-- The block with a number. -/
def Setting.block (setting : Setting) (block : Nat) : Except ResolveError Block :=
  match numbered? setting.blocks block with
  | some conflict => .ok conflict
  | none => .error (.blockOutOfRange block setting.blocks.length)

/-- The replacement by a text of a source. -/
def ofText (choice : Choice) (content heuristic label script : String) : Resolved :=
  ⟨Text.splitLines content, content, ⟨choice.auditName, content, heuristic, label, script⟩⟩

/-- The replacement that a choice stands for in a block given by number. -/
def resolve (pool : Pool) (setting : Setting) (block : Nat) (choice : Choice) :
    Except ResolveError Resolved := do
  let conflict ← Setting.block setting block
  match choice with
  | .side side =>
    match (conflict.sides setting.loaded).get? side with
    | none => throw (.noBaseVersion block)
    | some lines =>
      let content := Text.joinLines lines
      return ⟨lines, content, {
        choice := choice.auditName
        choiceCode := content
        heuristicCode := pool.heuristicCode block conflict setting.initialPatches
        labelCode := pool.labelCode block
        scriptCode := pool.scriptCode block }⟩
  | .heuristic =>
    match pool.bestResolution? block with
    | none => throw (.missingResolution .heuristic block)
    | some best => return ofText choice best.content best.content "" ""
  | .patch index =>
    match setting.patches[index]? with
    | none => throw (.patchOutOfRange index)
    | some patch =>
      return ⟨patch.newLines, patch.content,
        ⟨choice.auditName, patch.content, patch.content, "", ""⟩⟩
  | .classifier =>
    match pool.label? block with
    | none => throw (.missingResolution .classifier block)
    | some candidate => return ofText choice candidate.content "" candidate.content ""
  | .editScript =>
    if pool.batchPending then throw (.resolutionPending .editScript)
    match pool.script? block with
    | some (.resolvable text) => return ofText choice text "" "" text
    | some .unresolvable => throw (.unresolvable .editScript block)
    | none => throw (.missingResolution .editScript block)
  | .history rank =>
    match (pool.historyOf block)[rank]? with
    | none => throw (.missingResolution .history block)
    | some candidate => return ofText choice candidate.content "" "" ""

end Pool

end MergeConflict
