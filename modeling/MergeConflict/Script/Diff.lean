import MergeConflict.Script.Compaction
import MergeConflict.Script.Patience

/-!
Comparing two texts line by line.
-/

namespace MergeConflict

/-- How two texts are compared: along a shortest edit path, or by unique lines first. -/
inductive Algorithm where
  | lines
  | tokens
deriving DecidableEq, Repr

namespace Algorithm

def name : Algorithm → String
  | lines => "lines"
  | tokens => "tokens"

def default : Algorithm := tokens

/-- The name as a status report writes it. -/
def title : Algorithm → String
  | lines => "Lines"
  | tokens => "Tokens"

/-- The algorithm of a name in either case of the Latin letters; an unknown name is answered by its
lower-case form. -/
def ofName (text : String) : Except String Algorithm :=
  let lower := String.ofList (text.toList.map Char.toLower)
  if lower = "lines" then .ok lines
  else if lower = "tokens" then .ok tokens
  else .error lower

end Algorithm

/-- The normal script from one text to another. -/
def Script.diff (algorithm : Algorithm) (old new : List String) : Script :=
  let raw :=
    match algorithm with
    | .lines => myers old new
    | .tokens => patience old new
  normalize (compact raw)

end MergeConflict
