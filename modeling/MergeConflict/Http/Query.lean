/-!
Queries in the form encoding: letters, digits and `*-._` stand for themselves, a space is a plus,
and any other byte is a percent sign with two hexadecimal digits.
-/

namespace MergeConflict.Http

private def upperHexDigit (n : Nat) : Char :=
  if n < 10 then Char.ofNat (48 + n) else Char.ofNat (55 + n)

/-- A byte as a percent sign with two hexadecimal digits. -/
def escapeByte (b : UInt8) : List Char :=
  ['%', upperHexDigit (b.toNat / 16), upperHexDigit (b.toNat % 16)]

def isPlain (b : UInt8) : Bool :=
  let c := Char.ofNat b.toNat
  b < 128 && (c.isAlphanum || c == '*' || c == '-' || c == '.' || c == '_')

/-- A byte as it stands in a query. -/
def encodeByte (b : UInt8) : List Char :=
  if isPlain b then [Char.ofNat b.toNat]
  else if b = 32 then ['+']
  else escapeByte b

def encodeText (text : String) : String :=
  String.ofList (text.toUTF8.toList.flatMap encodeByte)

/-- A query of named values. -/
def encodeQuery (fields : List (String × String)) : String :=
  "&".intercalate (fields.map fun (name, value) => encodeText name ++ "=" ++ encodeText value)

end MergeConflict.Http
