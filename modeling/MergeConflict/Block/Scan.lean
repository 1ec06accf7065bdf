import MergeConflict.Block

/-!
Finding the conflict blocks of a text in one pass.

A block is a start marker, possibly a base marker, a middle marker and an end marker, in this
order. A start marker always opens a block afresh; any other marker out of order is content.
-/

namespace MergeConflict

/-- How far the block being read has come, with the line numbers seen so far. -/
inductive Scan where
  | outside
  | inOurs (start : Nat)
  | inBase (start base : Nat)
  | inTheirs (start : Nat) (base : Option Nat) (mid : Nat)
deriving DecidableEq

namespace Scan

/-- The scan after a marker at line `line`, and the block it closes. -/
def step (scan : Scan) (marker : Marker) (line : Nat) : Scan × Option Block :=
  match marker, scan with
  | .start, _ => (.inOurs line, none)
  | .base, .inOurs start => (.inBase start line, none)
  | .mid, .inOurs start => (.inTheirs start none line, none)
  | .mid, .inBase start base => (.inTheirs start (some base) line, none)
  | .stop, .inTheirs start base mid => (.outside, some ⟨start, base, mid, line⟩)
  | _, scan => (scan, none)

/-- The blocks closed by `lines`, the first of which has number `line`. -/
def blocks (scan : Scan) (line : Nat) : List String → List Block
  | [] => []
  | text :: rest =>
    match Marker.ofLine? text with
    | none => blocks scan (line + 1) rest
    | some marker =>
      match scan.step marker line with
      | (next, none) => blocks next (line + 1) rest
      | (next, some block) => block :: blocks next (line + 1) rest

end Scan

/-- The conflict blocks of a text in document order. -/
def findBlocks (lines : List String) : List Block :=
  Scan.outside.blocks 1 lines

end MergeConflict
