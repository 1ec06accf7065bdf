import MergeConflict.Script.Diff
import MergeConflict.Text.Blank

/-!
Hunks: the contiguous changes of an edit script, numbered by the lines of the old text.
-/

namespace MergeConflict

/-- `offset` lines of the old text from line `start` on give way to `newLines`. A pure insertion
has offset 0 and goes in front of line `start`. -/
structure Hunk where
  start : Nat
  offset : Nat
  oldLines : List String
  newLines : List String
deriving DecidableEq, Repr

namespace Hunk

/-- The last line replaced; the line in front of `start` for a pure insertion. -/
def lastLine (hunk : Hunk) : Nat :=
  hunk.start + hunk.offset - 1

/-- The change is in white space only. -/
def isBlank (hunk : Hunk) : Bool :=
  Text.inkOf hunk.oldLines == Text.inkOf hunk.newLines

/-- The hunks of a script whose first old line has number `line`; `pending` is the hunk still
growing. -/
def collect (line : Nat) (pending : Option Hunk) : Script → List Hunk
  | [] => pending.toList
  | ⟨.equal, lines⟩ :: rest => pending.toList ++ collect (line + lines.length) none rest
  | ⟨.removed, lines⟩ :: rest =>
    let hunk := pending.getD ⟨line, 0, [], []⟩
    let grown : Hunk :=
      { hunk with offset := hunk.offset + lines.length, oldLines := hunk.oldLines ++ lines }
    collect (line + lines.length) (some grown) rest
  | ⟨.added, lines⟩ :: rest =>
    let hunk := pending.getD ⟨line, 0, [], []⟩
    collect line (some { hunk with newLines := hunk.newLines ++ lines }) rest

/-- The hunk ends at line `least` or later and changes more than white space. -/
def counts (least : Nat) (hunk : Hunk) : Bool :=
  decide (least ≤ hunk.lastLine) && !hunk.isBlank

/-- The hunks of a script that count. -/
def ofScript (script : Script) (least : Nat) : List Hunk :=
  (collect 1 none script).filter (counts least)

/-- The hunks between two texts that count. -/
def between (old new : List String) (least : Nat) (algorithm : Algorithm) : List Hunk :=
  ofScript (Script.diff algorithm old new) least

end Hunk

end MergeConflict
