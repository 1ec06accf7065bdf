import MergeConflict.Binary64

/-!
JSON values as they are read from a text.

Fields keep their order, and a name may occur twice. A number written without fraction and
exponent that fits 64 bits, signed or unsigned, is an integer; any other is a double. Three values
stand for faults of the text, so that a typed reader meets the faults in the order of the text:
`flawed` for a value that is well formed and denotes nothing, `broken` for the place where the
text stops being JSON, and `nameless` for a field with such a fault in its name.
-/

namespace MergeConflict

inductive Json where
  | null
  | bool (b : Bool)
  | int (i : Int)
  | real (x : Binary64)
  | str (s : String)
  | arr (items : List Json)
  | obj (fields : List (String × Json))
  /-- A number beyond the doubles, or a text with half a surrogate pair. -/
  | flawed
  | broken
  /-- The value of a field whose name is flawed or broken; the field goes under the empty name. -/
  | nameless (value : Json)
deriving Repr

namespace Json

mutual

/-- No text breaks off inside the value. -/
def isWhole : Json → Bool
  | .arr items => itemsWhole items
  | .obj fields => fieldsWhole fields
  | .nameless value => value.isWhole
  | .broken => false
  | _ => true

def itemsWhole : List Json → Bool
  | [] => true
  | item :: rest => item.isWhole && itemsWhole rest

def fieldsWhole : List (String × Json) → Bool
  | [] => true
  | (_, value) :: rest => value.isWhole && fieldsWhole rest

end

mutual

/-- Every name and value inside denotes something, and none lies deeper than `depth` containers. -/
def isSound (depth : Nat) : Json → Bool
  | .arr items => depth != 0 && itemsSound (depth - 1) items
  | .obj fields => depth != 0 && fieldsSound (depth - 1) fields
  | .flawed | .broken | .nameless _ => false
  | _ => true

def itemsSound (depth : Nat) : List Json → Bool
  | [] => true
  | item :: rest => item.isSound depth && itemsSound depth rest

def fieldsSound (depth : Nat) : List (String × Json) → Bool
  | [] => true
  | (_, value) :: rest => value.isSound depth && fieldsSound depth rest

end

/-- An option, absent being null. -/
def ofOption {α : Type} (encode : α → Json) : Option α → Json
  | none => .null
  | some a => encode a

def ofList {α : Type} (encode : α → Json) (items : List α) : Json :=
  .arr (items.map encode)

def ofNat (n : Nat) : Json :=
  .int n

def ofStrings (lines : List String) : Json :=
  ofList .str lines

end Json

end MergeConflict
