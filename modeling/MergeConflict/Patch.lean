import MergeConflict.Block
import MergeConflict.Hunk

/-!
Semantic patches: replacements for whole stretches of a buffer.
-/

namespace MergeConflict

/-- `newLines` in the place of `offset` buffer lines from line `start` on. -/
structure Patch where
  start : Nat
  offset : Nat
  newLines : List String
deriving DecidableEq, Repr

namespace Patch

def ofHunk (hunk : Hunk) : Patch :=
  ⟨hunk.start, hunk.offset, hunk.newLines⟩

/-- The last line replaced; the line in front of `start` for a pure insertion. -/
def lastLine (patch : Patch) : Nat :=
  patch.start + patch.offset - 1

/-- The text put in. -/
def content (patch : Patch) : String :=
  Text.joinLines patch.newLines

/-- The patch covers a position of the interval. A pure insertion covers the line it goes in
front of. -/
def touches (patch : Patch) (at' : Interval) : Bool :=
  let first := patch.start - 1
  let last := first + max patch.offset 1 - 1
  decide (first ≤ at'.last) && decide (at'.first ≤ last)

/-- The patch replaces lines that a buffer of this length has. -/
def fits (patch : Patch) (length : Nat) : Bool :=
  decide (patch.start ≠ 0) && decide (patch.start - 1 + patch.offset ≤ length)

/-- Some lines in the place of `count` lines from a position on. -/
def splice (lines : List String) (position count : Nat) (replacement : List String) :
    List String :=
  lines.take position ++ replacement ++ lines.drop (position + count)

/-- The buffer after the patch, if the patch fits it. -/
def applied? (patch : Patch) (lines : List String) : Option (List String) :=
  if patch.fits lines.length then
    some (splice lines (patch.start - 1) patch.offset patch.newLines)
  else none

/-- By first line, then by number of lines replaced. -/
def precedes (a b : Patch) : Bool :=
  decide (a.start < b.start) || (a.start == b.start && decide (a.offset ≤ b.offset))

/-- In the order of the lines they replace; patches that tie keep their order. -/
def sort (patches : List Patch) : List Patch :=
  patches.mergeSort precedes

/-- A buffer after every patch that fits, the last one first so that line numbers stay valid. -/
def applyAll (lines : List String) (patches : List Patch) : List String :=
  (sort patches).foldr (fun patch buffer => (patch.applied? buffer).getD buffer) lines

end Patch

end MergeConflict
