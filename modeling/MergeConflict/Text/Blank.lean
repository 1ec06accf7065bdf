/-!
White space in the sense of the Unicode property White_Space, and the trimming built on it.
-/

namespace MergeConflict.Text

/-- The code points of White_Space. -/
def isBlank (c : Char) : Bool :=
  let n := c.toNat
  (0x09 ≤ n && n ≤ 0x0D) || n == 0x20 || n == 0x85 || n == 0xA0 || n == 0x1680 ||
    (0x2000 ≤ n && n ≤ 0x200A) || n == 0x2028 || n == 0x2029 || n == 0x202F || n == 0x205F ||
    n == 0x3000

/-- The characters of some lines, one line after the other, less all white space. -/
def inkOf (lines : List String) : List Char :=
  lines.flatMap fun line => line.toList.filter fun c => !isBlank c

/-- A text less the white space at both ends. -/
def trim (text : String) : String :=
  String.ofList ((text.toList.dropWhile isBlank).reverse.dropWhile isBlank).reverse

/-- A text less every slash at its end. -/
def dropFinalSlashes (text : String) : String :=
  String.ofList (text.toList.reverse.dropWhile (· == '/')).reverse

/-- A text less a byte order mark in front, of which only one counts. -/
def dropByteOrderMark (text : String) : String :=
  match text.toList with
  | '\uFEFF' :: rest => String.ofList rest
  | _ => text

end MergeConflict.Text
