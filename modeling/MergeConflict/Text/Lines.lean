/-!
Text as lines.

`splitLines` cuts a text at every newline and keeps the empty line behind a final one, so a text
always has at least one line. `joinLines` writes the newlines back between the lines.
`displayLines` is the reading of a terminal: a line ends at its terminator, and the last
terminator opens no further line.
-/

namespace MergeConflict.Text

/-- The stretches between the occurrences of a character. -/
def cutAt (separator : Char) : List Char → List (List Char)
  | [] => [[]]
  | c :: rest =>
    if c = separator then [] :: cutAt separator rest
    else
      match cutAt separator rest with
      | [] => [[c]]
      | piece :: pieces => (c :: piece) :: pieces

/-- The lines of a text, a final newline giving an empty last line. -/
def splitLines (text : String) : List String :=
  (cutAt '\n' text.toList).map String.ofList

/-- Lines with a newline between each two. -/
def joinLines (lines : List String) : String :=
  "\n".intercalate lines

/-- Lines with a newline behind each, the empty list giving the empty text. -/
def terminateLines (lines : List String) : String :=
  if lines.isEmpty then "" else joinLines lines ++ "\n"

/-- A text less one newline at its end. -/
def dropFinalNewline (text : String) : String :=
  match text.toList.reverse with
  | '\n' :: rest => String.ofList rest.reverse
  | _ => text

private def dropFinalReturn (line : List Char) : List Char :=
  match line.reverse with
  | '\r' :: rest => rest.reverse
  | _ => line

private def displayed : List (List Char) → List (List Char)
  | [] => []
  | [last] => if last.isEmpty then [] else [last]
  | line :: rest => dropFinalReturn line :: displayed rest

/-- The lines a reader sees: they end at a newline or at a carriage return and a newline. -/
def displayLines (text : String) : List String :=
  (displayed (cutAt '\n' text.toList)).map String.ofList

/-- Number of leading elements two lists share. -/
def commonLead {α : Type} [DecidableEq α] : List α → List α → Nat
  | x :: xs, y :: ys => if x = y then commonLead xs ys + 1 else 0
  | _, _ => 0

end MergeConflict.Text
