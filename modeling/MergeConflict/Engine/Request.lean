import MergeConflict.Pool.Resolve

/-!
What the engines are asked.
-/

namespace MergeConflict

/-- Asks for resolutions of a file of a merge of two branches. -/
structure HeuristicRequest where
  project : String
  ours : String
  theirs : String
  file : String
deriving DecidableEq, Repr

/-- Asks for strategy labels of the conflicts between checked-out versions of a file. -/
structure LabelRequest where
  project : String
  targetBranch : String
  sourceBranch : String
  ours : String
  theirs : String
  conflict : String
  base : String
  language : String
deriving DecidableEq, Repr

/-- Asks for an edit script over the sides of a block. -/
structure ScriptRequest where
  base : String
  ours : String
  theirs : String
deriving DecidableEq, Repr

/-- Every side ends its lines, so that no lines and one empty line differ. -/
def ScriptRequest.ofSides (sides : Sides) : ScriptRequest where
  base := Text.terminateLines (sides.base.getD [])
  ours := Text.terminateLines sides.ours
  theirs := Text.terminateLines sides.theirs

/-- Asks for past resolutions of a file. -/
structure HistoryQuery where
  file : String
  repository : String
  fileType : Nat
deriving DecidableEq, Repr

/-- Reports a choice to the audit. -/
structure ChoiceRecord where
  project : String
  targetBranch : String
  sourceBranch : String
  file : String
  /-- The position of the block, the first at 0. -/
  index : Nat
  audit : Audit
deriving DecidableEq, Repr

end MergeConflict
