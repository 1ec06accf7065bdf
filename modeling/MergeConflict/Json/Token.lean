import MergeConflict.Json.Numeral

/-!
The tokens of a JSON text. Reading stops at the first character that no token begins with, which
becomes the token `junk`.
-/

namespace MergeConflict.Json

inductive Token where
  | openObject
  | closeObject
  | openArray
  | closeArray
  | comma
  | colon
  /-- Null, a truth value or a number. -/
  | scalar (value : Json)
  /-- A text; `none` where half of a surrogate pair stands in it. -/
  | text (content : Option String)
  | junk
deriving Repr

namespace Token

def digit? (c : Char) : Option Nat :=
  if '0' ≤ c ∧ c ≤ '9' then some (c.toNat - 48) else none

def hexDigit? (c : Char) : Option Nat :=
  if '0' ≤ c ∧ c ≤ '9' then some (c.toNat - 48)
  else if 'a' ≤ c ∧ c ≤ 'f' then some (c.toNat - 87)
  else if 'A' ≤ c ∧ c ≤ 'F' then some (c.toNat - 55)
  else none

/-- A code unit from four hexadecimal digits. -/
def codeUnit? (a b c d : Char) : Option Nat := do
  return (((← hexDigit? a) * 16 + (← hexDigit? b)) * 16 + (← hexDigit? c)) * 16 + (← hexDigit? d)

/-- The character that a letter stands for behind a backslash. -/
def escaped? : Char → Option Char
  | '"' => some '"'
  | '\\' => some '\\'
  | '/' => some '/'
  | 'b' => some '\x08'
  | 'f' => some '\x0c'
  | 'n' => some '\n'
  | 'r' => some '\r'
  | 't' => some '\t'
  | _ => none

/-- What has been read of a text. -/
structure Partial where
  /-- The characters so far, the latest first. -/
  done : List Char
  /-- A leading surrogate that waits for its other half. -/
  half : Option Nat
  /-- Every surrogate so far had its other half. -/
  paired : Bool

namespace Partial

def start : Partial := ⟨[], none, true⟩

def push (p : Partial) (c : Char) : Partial :=
  ⟨c :: p.done, none, p.paired && p.half.isNone⟩

/-- Takes in a code unit written as an escape. -/
def pushUnit (p : Partial) (unit : Nat) : Partial :=
  if 0xD800 ≤ unit ∧ unit < 0xDC00 then ⟨p.done, some unit, p.paired && p.half.isNone⟩
  else if 0xDC00 ≤ unit ∧ unit < 0xE000 then
    match p.half with
    | some high => ⟨Char.ofNat (0x10000 + (high - 0xD800) * 0x400 + (unit - 0xDC00)) :: p.done,
        none, p.paired⟩
    | none => ⟨p.done, none, false⟩
  else p.push (Char.ofNat unit)

def content (p : Partial) : Option String :=
  if p.paired && p.half.isNone then some (String.ofList p.done.reverse) else none

end Partial

/-- The rest of a text behind its opening quote; `none` where it is malformed. -/
def readText (p : Partial) : List Char → Option (Option String × List Char)
  | [] => none
  | '"' :: rest => some (p.content, rest)
  | '\\' :: 'u' :: a :: b :: c :: d :: rest =>
    match codeUnit? a b c d with
    | some unit => readText (p.pushUnit unit) rest
    | none => none
  | '\\' :: c :: rest =>
    match escaped? c with
    | some c => readText (p.push c) rest
    | none => none
  | c :: rest => if c.toNat < 0x20 then none else readText (p.push c) rest

/-- The digits a text begins with. -/
def digits : List Char → List Nat × List Char
  | [] => ([], [])
  | c :: rest =>
    match digit? c with
    | some d => let (more, rest) := digits rest; (d :: more, rest)
    | none => ([], c :: rest)

/-- The fraction and its point, if there is one; `none` for a point without digits. -/
def fraction : List Char → Option (List Nat × Bool × List Char)
  | '.' :: rest =>
    match digits rest with
    | ([], _) => none
    | (ds, rest) => some (ds, true, rest)
  | rest => some ([], false, rest)

def exponentDigits (isNegative : Bool) (text : List Char) : Option (Int × Bool × List Char) :=
  match digits text with
  | ([], _) => none
  | (ds, rest) =>
    let n : Nat := ds.foldl (fun n d => n * 10 + d) 0
    some (if isNegative then -(n : Int) else (n : Int), true, rest)

/-- The exponent and its letter, if there is one. -/
def exponent : List Char → Option (Int × Bool × List Char)
  | 'e' :: '-' :: rest | 'E' :: '-' :: rest => exponentDigits true rest
  | 'e' :: '+' :: rest | 'E' :: '+' :: rest => exponentDigits false rest
  | 'e' :: rest | 'E' :: rest => exponentDigits false rest
  | rest => some (0, false, rest)

/-- A number literal behind its sign. -/
def number (isNegative : Bool) (text : List Char) : Option (Json × List Char) := do
  let (whole, rest) := digits text
  if whole.isEmpty ∨ (whole.head? = some 0 ∧ whole.length ≠ 1) then none
  let (fraction, hasPoint, rest) ← fraction rest
  let (exponent, hasLetter, rest) ← exponent rest
  let numeral : Numeral := ⟨isNegative, whole, fraction, exponent, !hasPoint && !hasLetter⟩
  return (numeral.toJson, rest)

/-- The first token and what follows it. -/
def next (c : Char) (rest : List Char) : Option (Token × List Char) :=
  match c with
  | '\x7b' => some (openObject, rest)
  | '\x7d' => some (closeObject, rest)
  | '[' => some (openArray, rest)
  | ']' => some (closeArray, rest)
  | ',' => some (comma, rest)
  | ':' => some (colon, rest)
  | '"' => (readText .start rest).map fun (content, rest) => (text content, rest)
  | '-' => (number true rest).map fun (value, rest) => (scalar value, rest)
  | 't' =>
    match rest with
    | 'r' :: 'u' :: 'e' :: rest => some (scalar (.bool true), rest)
    | _ => none
  | 'f' =>
    match rest with
    | 'a' :: 'l' :: 's' :: 'e' :: rest => some (scalar (.bool false), rest)
    | _ => none
  | 'n' =>
    match rest with
    | 'u' :: 'l' :: 'l' :: rest => some (scalar .null, rest)
    | _ => none
  | c => (number false (c :: rest)).map fun (value, rest) => (scalar value, rest)

def isSpace (c : Char) : Bool :=
  c == ' ' || c == '\n' || c == '\t' || c == '\r'

/-- The tokens of a text, at most `fuel` characters of it being token starts or spaces. -/
def scan : Nat → List Char → List Token
  | 0, _ => []
  | _, [] => []
  | fuel + 1, c :: rest =>
    if isSpace c then scan fuel rest
    else
      match next c rest with
      | some (token, rest) => token :: scan fuel rest
      | none => [junk]

/-- The tokens of a text. -/
def ofText (text : String) : List Token :=
  let chars := text.toList
  scan chars.length chars

end Token

end MergeConflict.Json
