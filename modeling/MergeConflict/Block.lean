import MergeConflict.Marker

/-!
Conflict blocks, their three sides, and intervals of a buffer.

A block names its marker lines by line number, the first line of a text being line 1. An interval
is an inclusive range of positions in a buffer, the first line being at position 0.
-/

namespace MergeConflict

/-- One version of a conflicted region. -/
inductive Side where
  | ours
  | base
  | theirs
deriving DecidableEq, Repr

def Side.name : Side → String
  | ours => "ours"
  | base => "base"
  | theirs => "theirs"

/-- The versions of a conflicted region; only a three-way conflict has a base. -/
structure Sides where
  ours : List String
  base : Option (List String)
  theirs : List String
deriving DecidableEq, Repr

/-- The lines of one version, if the conflict has it. -/
def Sides.get? (sides : Sides) : Side → Option (List String)
  | .ours => some sides.ours
  | .base => sides.base
  | .theirs => some sides.theirs

/-- An inclusive range of buffer positions. -/
structure Interval where
  first : Nat
  last : Nat
deriving DecidableEq, Repr

def Interval.lineCount (at' : Interval) : Nat :=
  at'.last + 1 - at'.first

/-- The line numbers of a conflict's markers. -/
structure Block where
  startLine : Nat
  baseLine : Option Nat
  midLine : Nat
  endLine : Nat
deriving DecidableEq, Repr

namespace Block

def isThreeWay (block : Block) : Bool :=
  block.baseLine.isSome

/-- Number of lines from the start marker to the end marker. -/
def lineCount (block : Block) : Nat :=
  block.endLine + 1 - block.startLine

/-- The block has a line in `first..last`, both inclusive. -/
def intersects (block : Block) (first last : Nat) : Bool :=
  decide (block.startLine ≤ last) && decide (first ≤ block.endLine)

/-- Number of the block's lines in `first..last`, both inclusive. -/
def overlap (block : Block) (first last : Nat) : Nat :=
  min last block.endLine + 1 - max first block.startLine

/-- The lines strictly between two line numbers; none where the range does not fit the text. -/
def between (lines : List String) (opening closing : Nat) : List String :=
  if opening ≤ closing - 1 ∧ closing - 1 ≤ lines.length then
    (lines.take (closing - 1)).drop opening
  else []

/-- The lines from the start marker to the base marker, or to the middle one if there is none. -/
def ours (block : Block) (lines : List String) : List String :=
  between lines block.startLine (block.baseLine.getD block.midLine)

def base (block : Block) (lines : List String) : Option (List String) :=
  block.baseLine.map fun line => between lines line block.midLine

def theirs (block : Block) (lines : List String) : List String :=
  between lines block.midLine block.endLine

/-- The versions a block holds in a text. -/
def sides (block : Block) (lines : List String) : Sides where
  ours := block.ours lines
  base := block.base lines
  theirs := block.theirs lines

end Block

/-- The number of the entry at an index. Indices are words of 64 bits, so the last one wraps. -/
def numberOf (index : Nat) : Nat :=
  (index + 1) % UInt64.size

/-- The entry with a 1-based number. -/
def numbered? {α : Type} (entries : List α) : Nat → Option α
  | 0 => none
  | i + 1 => entries[i]?

end MergeConflict
