import MergeConflict.Block

/-!
Where a resolution comes from, and what a user asks to put in the place of a block.
-/

namespace MergeConflict

/-- The origin of candidate resolutions. -/
inductive Source where
  /-- The static analysis, which also supplies a merged reference. -/
  | heuristic
  /-- The classifier of resolution strategies. -/
  | classifier
  /-- The predictor of edit scripts. -/
  | editScript
  /-- Resolutions found in the history of the repository. -/
  | history
deriving DecidableEq, Repr

def Source.name : Source → String
  | heuristic => "heuristic"
  | classifier => "ml"
  | editScript => "dl"
  | history => "history"

/-- What to put in the place of a block. -/
inductive Choice where
  /-- One side as it is. -/
  | side (which : Side)
  /-- The best heuristic resolution. -/
  | heuristic
  /-- A semantic patch, by position in the current list. -/
  | patch (index : Nat)
  | classifier
  | editScript
  /-- A history candidate, rank 0 being the most confident. -/
  | history (rank : Nat)
deriving DecidableEq, Repr

namespace Choice

/-- The source a choice draws on; a side needs none. -/
def source? : Choice → Option Source
  | side _ => none
  | heuristic => some .heuristic
  | patch _ => some .heuristic
  | classifier => some .classifier
  | editScript => some .editScript
  | history _ => some .history

/-- The name a choice is audited under. -/
def auditName : Choice → String
  | side which => which.name
  | heuristic => "sa"
  | patch _ => "sa"
  | classifier => "ml"
  | editScript => "dl"
  | history _ => "git"

/-- The name a choice is shown under. -/
def title : Choice → String
  | side which => which.name
  | heuristic => "heuristic"
  | patch index => "patch #" ++ toString (numberOf index)
  | classifier => "ml"
  | editScript => "dl"
  | history rank => "history #" ++ toString (numberOf rank)

end Choice

/-- A choice for a block given by number. -/
structure Request where
  block : Nat
  choice : Choice
deriving DecidableEq, Repr

end MergeConflict
