import MergeConflict.Block.Scan
import MergeConflict.Sha256
import MergeConflict.Text.Lines

/-!
Fingerprints of conflict blocks, by which a block is found again in a buffer that has been edited
around it.

A fingerprint is the SHA-256 of the block's lines, markers included, with a newline between each
two. `locate` looks at the stretches from a start marker to the next end marker, one after the
other, for one with a given fingerprint.
-/

namespace MergeConflict

structure Fingerprint where
  bytes : List UInt8
deriving DecidableEq

private def hexDigit (n : Nat) : Char :=
  if n < 10 then Char.ofNat (48 + n) else Char.ofNat (87 + n)

private def hexOf (bytes : List UInt8) : String :=
  String.ofList (bytes.flatMap fun b => [hexDigit (b.toNat / 16), hexDigit (b.toNat % 16)])

namespace Fingerprint

/-- The fingerprint of some lines. -/
def ofLines (lines : List String) : Fingerprint :=
  ⟨Sha256.digest (Text.joinLines lines).toUTF8.toList⟩

/-- The fingerprint of the positions `first..last`; that of the empty text where they do not fit. -/
def ofRange (lines : List String) (first last : Nat) : Fingerprint :=
  if first ≤ last ∧ last < lines.length then
    ofLines ((lines.take (last + 1)).drop first)
  else ofLines []

def ofBlock (lines : List String) (block : Block) : Fingerprint :=
  ofRange lines (block.startLine - 1) (block.endLine - 1)

/-- All digits, two per byte. -/
def hex (print : Fingerprint) : String :=
  hexOf print.bytes

/-- The first eight digits, for listings. -/
def short (print : Fingerprint) : String :=
  hexOf (print.bytes.take 4)

/-- The form shown to a programmer. -/
def describe (print : Fingerprint) : String :=
  "Fingerprint(" ++ print.short ++ ")"

/-- Where a fingerprint sits in `rest`, whose first line is at `position`. An unclosed start
marker ends the search. -/
def locateFrom (print : Fingerprint) (position : Nat) (rest : List String) : Option Interval :=
  match rest with
  | [] => none
  | line :: tail =>
    if Marker.start.opens line then
      match tail.findIdx? Marker.stop.opens with
      | none => none
      | some inner =>
        if ofLines (line :: tail.take (inner + 1)) = print then
          some ⟨position, position + 1 + inner⟩
        else locateFrom print (position + inner + 2) (tail.drop (inner + 1))
    else locateFrom print (position + 1) tail
termination_by rest.length
decreasing_by all_goals simp +arith

/-- The first stretch of a buffer with this fingerprint. -/
def locate (print : Fingerprint) (lines : List String) : Option Interval :=
  print.locateFrom 0 lines

end Fingerprint

/-- The fingerprints of a text's blocks; entry `i` belongs to block `i + 1`. -/
structure FingerprintIndex where
  prints : List Fingerprint
deriving DecidableEq

namespace FingerprintIndex

def ofBlocks (lines : List String) (blocks : List Block) : FingerprintIndex :=
  ⟨blocks.map (Fingerprint.ofBlock lines)⟩

/-- The fingerprint of a block given by number. -/
def get? (index : FingerprintIndex) (block : Nat) : Option Fingerprint :=
  numbered? index.prints block

/-- Where a block given by number sits in a buffer now. -/
def locate (index : FingerprintIndex) (lines : List String) (block : Nat) : Option Interval :=
  (index.get? block).bind fun print => print.locate lines

end FingerprintIndex

end MergeConflict
