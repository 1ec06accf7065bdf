import MergeConflict.Text.Lines

/-!
Session ids: 128 bits, written as 32 hexadecimal digits in five groups.
-/

namespace MergeConflict

structure SessionId where
  /-- The 32 digits, in lower case. -/
  digits : List Char
deriving DecidableEq, Repr

namespace SessionId

/-- The lengths of the groups. -/
def groups : List Nat := [8, 4, 4, 4, 12]

private def lowerHex? (c : Char) : Option Char :=
  if ('0' ≤ c ∧ c ≤ '9') ∨ ('a' ≤ c ∧ c ≤ 'f') then some c
  else if 'A' ≤ c ∧ c ≤ 'F' then some c.toLower
  else none

def ofDigits? (text : List Char) : Option SessionId :=
  if text.length = 32 then (text.mapM lowerHex?).map SessionId.mk else none

def ofGroups? (text : List Char) : Option SessionId :=
  let pieces := Text.cutAt '-' text
  if pieces.map List.length = groups then ofDigits? pieces.flatten else none

private def urn : List Char := "urn:uuid:".toList

/-- The id a text names: its digits bare or in groups, and the groups also in braces or behind the
name of their scheme. -/
def ofText? (text : List Char) : Option SessionId :=
  if text.length = 38 then
    if text.head? = some '\x7b' ∧ text.getLast? = some '\x7d' then
      ofGroups? (text.drop 1).dropLast
    else none
  else if urn.isPrefixOf text then ofGroups? (text.drop urn.length)
  else if text.length = 32 then ofDigits? text
  else ofGroups? text

/-- Digits with a hyphen between two groups. -/
def grouped : List Nat → List Char → List (List Char)
  | [], _ => []
  | length :: rest, digits => digits.take length :: grouped rest (digits.drop length)

def text (id : SessionId) : String :=
  "-".intercalate ((grouped groups id.digits).map String.ofList)

end SessionId

end MergeConflict
