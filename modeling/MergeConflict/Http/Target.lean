import MergeConflict.Http.Query
import MergeConflict.Text.Lines

/-!
What stands behind the host of an address, in the form in which a request carries it.

An address is read as browsers read one. Tabs and line ends count for nothing, and a backslash in
the path is a slash. The path ends at the first question mark and the query at the first number
sign; what follows that sign is not sent. The segments `.` and `..` are resolved. A character that
may not stand where it stands is escaped byte by byte.
-/

namespace MergeConflict.Http

structure Target where
  path : String
  query : Option String
deriving DecidableEq, Repr

namespace Target

/-- A character as it is sent, those of a set being escaped like all that are not printable ASCII. -/
def escape (reserved : List Char) (c : Char) : List Char :=
  if c.toNat < 0x20 ∨ 0x7E < c.toNat ∨ c ∈ reserved then
    (String.singleton c).toUTF8.toList.flatMap escapeByte
  else [c]

def reservedInPath : List Char := [' ', '"', '<', '>', '\x60', '\x7b', '\x7d']

def reservedInQuery : List Char := [' ', '"', '<', '>', '\x27']

/-- A segment with its escaped dots written out. -/
def plainDots : List Char → List Char
  | '%' :: '2' :: 'e' :: rest | '%' :: '2' :: 'E' :: rest => '.' :: plainDots rest
  | c :: rest => c :: plainDots rest
  | [] => []

/-- The segments of a path less those that `.` and `..` take away; `done` holds the ones so far,
the latest first. A path that ends in one of the two ends in a slash. -/
def resolve (done : List (List Char)) : List (List Char) → List (List Char)
  | [] => done.reverse
  | segment :: rest =>
    let keep (done : List (List Char)) := if rest.isEmpty then [] :: done else done
    match plainDots segment with
    | ['.'] => resolve (keep done) rest
    | ['.', '.'] => resolve (keep done.tail) rest
    | _ => resolve (segment :: done) rest

/-- The path that is sent for the characters behind the first slash. -/
def pathOf (text : List Char) : String :=
  let segments := Text.cutAt '/' (text.map fun c => if c = '\\' then '/' else c)
  String.ofList <| (resolve [] segments).flatMap fun segment =>
    '/' :: segment.flatMap (escape reservedInPath)

/-- The query that is sent for what follows the path. -/
def queryOf : List Char → Option String
  | '?' :: rest =>
    some (String.ofList ((rest.takeWhile (· ≠ '#')).flatMap (escape reservedInQuery)))
  | _ => none

/-- The end of the path is here. -/
def endsPath (c : Char) : Bool :=
  c == '?' || c == '#'

/-- Reads what follows a host; none where it would go on with the host. -/
def ofText? (text : String) : Option Target :=
  let text := text.toList.filter fun c => c ≠ '\t' ∧ c ≠ '\n' ∧ c ≠ '\r'
  let read (text : List Char) : Target :=
    ⟨pathOf (text.takeWhile (!endsPath ·)), queryOf (text.dropWhile (!endsPath ·))⟩
  match text with
  | '/' :: rest | '\\' :: rest => some (read rest)
  | [] => some (read [])
  | c :: rest => if endsPath c then some (read (c :: rest)) else none

/-- The target with named values behind its query. -/
def withFields (target : Target) (fields : List (String × String)) : Target :=
  let more := encodeQuery fields
  match target.query with
  | none | some "" => { target with query := some more }
  | some query => { target with query := some (query ++ "&" ++ more) }

end Target

end MergeConflict.Http
