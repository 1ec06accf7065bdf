/-!
The four marker lines of a conflict. A line is a marker line when it begins with seven copies of
the marker's character, whatever follows.
-/

namespace MergeConflict

inductive Marker where
  /-- Opens a conflict; our side follows. -/
  | start
  /-- Opens the common ancestor of a three-way conflict. -/
  | base
  /-- Opens their side. -/
  | mid
  /-- Closes a conflict. -/
  | stop
deriving DecidableEq

namespace Marker

def text : Marker → String
  | start => "<<<<<<<"
  | base => "|||||||"
  | mid => "======="
  | stop => ">>>>>>>"

/-- The line begins with the marker's text. -/
def opens (marker : Marker) (line : String) : Bool :=
  marker.text.toList.isPrefixOf line.toList

/-- A marker opens the lines that are its text and anything behind it. -/
theorem opens_iff {marker : Marker} {line : String} :
    marker.opens line = true ↔ ∃ rest, line = marker.text ++ rest := by
  rw [opens, List.isPrefixOf_iff_prefix]
  constructor
  · rintro ⟨rest, split⟩
    refine ⟨String.ofList rest, String.toList_inj.1 ?_⟩
    rw [String.toList_append, String.toList_ofList, split]
  · rintro ⟨rest, rfl⟩
    rw [String.toList_append]
    exact List.prefix_append ..

/-- The marker a line carries, if any. -/
def ofLine? (line : String) : Option Marker :=
  if start.opens line then some start
  else if base.opens line then some base
  else if mid.opens line then some mid
  else if stop.opens line then some stop
  else none

end Marker

end MergeConflict
