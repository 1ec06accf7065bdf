import MergeConflict.ResolveError
import MergeConflict.Text.Lines

/-!
Resolution strategies that the classifier names by a label.
-/

namespace MergeConflict

inductive Label where
  | ours
  | theirs
  /-- Ours, then theirs. -/
  | both
  /-- The conflict itself, with bare markers. -/
  | keep
  /-- What the combiner makes of the sides. -/
  | combine
deriving DecidableEq, Repr

/-- The sides as the combiner is asked about them. -/
structure CombineRequest where
  ours : String
  theirs : String
  base : String
deriving DecidableEq, Repr

/-- What a strategy makes of a block's sides. -/
inductive Label.Outcome where
  | resolved (content : String)
  | needsCombiner (request : CombineRequest)
deriving DecidableEq, Repr

/-- The lines of a conflict with these sides and bare markers. -/
def Sides.conflictLines (sides : Sides) : List String :=
  Marker.start.text :: sides.ours ++
    (match sides.base with
      | some base => Marker.base.text :: base
      | none => []) ++
    Marker.mid.text :: sides.theirs ++ [Marker.stop.text]

/-- The text of a conflict with these sides and bare markers. -/
def Sides.conflictText (sides : Sides) : String :=
  Text.joinLines sides.conflictLines

namespace Label

def code : Label → String
  | ours => "V1"
  | theirs => "V2"
  | both => "CC"
  | keep => "NC"
  | combine => "CB"

def all : List Label := [ours, theirs, both, keep, combine]

/-- The label with a code. -/
def ofCode (text : String) : Except ResolveError Label :=
  match all.find? (·.code == text) with
  | some label => .ok label
  | none => .error (.unknownLabel text)

/-- Runs the strategy on the sides of a block. -/
def apply (label : Label) (sides : Sides) : Outcome :=
  match label with
  | ours => .resolved (Text.joinLines sides.ours)
  | theirs => .resolved (Text.joinLines sides.theirs)
  | both => .resolved (Text.joinLines sides.ours ++ "\n" ++ Text.joinLines sides.theirs)
  | keep => .resolved sides.conflictText
  | combine => .needsCombiner {
      ours := Text.joinLines sides.ours
      theirs := Text.joinLines sides.theirs
      base := Text.joinLines (sides.base.getD []) }

end Label

end MergeConflict
