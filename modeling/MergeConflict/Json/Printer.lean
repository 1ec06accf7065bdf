import MergeConflict.Binary64.Shortest
import MergeConflict.Json

/-!
Writing JSON, on one line or indented by two spaces a level.

Texts are escaped no further than the grammar asks: the quote, the backslash and the control
characters below the space. A double that is not finite is written as null.
-/

namespace MergeConflict.Json

private def hexDigit (n : Nat) : Char :=
  if n < 10 then Char.ofNat (48 + n) else Char.ofNat (87 + n)

/-- A character as it stands between quotes. -/
def escapeChar (c : Char) : List Char :=
  match c with
  | '"' => ['\\', '"']
  | '\\' => ['\\', '\\']
  | '\x08' => ['\\', 'b']
  | '\x0c' => ['\\', 'f']
  | '\n' => ['\\', 'n']
  | '\r' => ['\\', 'r']
  | '\t' => ['\\', 't']
  | c =>
    if c.toNat < 0x20 then
      ['\\', 'u', '0', '0', hexDigit (c.toNat / 16), hexDigit (c.toNat % 16)]
    else [c]

/-- A text between quotes. -/
def quote (text : String) : List Char :=
  '"' :: text.toList.flatMap escapeChar ++ ['"']

def indentation (level : Nat) : List Char :=
  '\n' :: List.replicate (2 * level) ' '

mutual

/-- The text of a value inside `level` containers, `pretty` with one item to a line. -/
def write (pretty : Bool) (level : Nat) : Json → List Char
  | .null => "null".toList
  | .bool true => "true".toList
  | .bool false => "false".toList
  | .int i => (toString i).toList
  | .real x => if x.isFinite then x.shortest.toList else "null".toList
  | .str s => quote s
  | .arr [] => ['[', ']']
  | .arr (item :: rest) =>
    '[' :: (if pretty then indentation (level + 1) else []) ++ write pretty (level + 1) item ++
      writeItems pretty level rest
  | .obj [] => ['\x7b', '\x7d']
  | .obj ((name, value) :: rest) =>
    '\x7b' :: (if pretty then indentation (level + 1) else []) ++ quote name ++
      (if pretty then [':', ' '] else [':']) ++ write pretty (level + 1) value ++
      writeFields pretty level rest
  | .flawed => []
  | .broken => []
  | .nameless value => write pretty level value

/-- The items of an array behind its first, and the bracket that closes it. -/
def writeItems (pretty : Bool) (level : Nat) : List Json → List Char
  | [] => (if pretty then indentation level else []) ++ [']']
  | item :: rest =>
    ',' :: (if pretty then indentation (level + 1) else []) ++ write pretty (level + 1) item ++
      writeItems pretty level rest

/-- The fields of an object behind its first, and the brace that closes it. -/
def writeFields (pretty : Bool) (level : Nat) : List (String × Json) → List Char
  | [] => (if pretty then indentation level else []) ++ ['\x7d']
  | (name, value) :: rest =>
    ',' :: (if pretty then indentation (level + 1) else []) ++ quote name ++
      (if pretty then [':', ' '] else [':']) ++ write pretty (level + 1) value ++
      writeFields pretty level rest

end

/-- A value on one line without spaces. -/
def compact (value : Json) : String :=
  String.ofList (value.write false 0)

/-- A value with one item to a line. -/
def pretty (value : Json) : String :=
  String.ofList (value.write true 0)

end MergeConflict.Json
