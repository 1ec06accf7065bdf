/-!
Bytes as text.

`decode?` reads bytes that are UTF-8 throughout. `decodeLossy` reads any bytes: what begins a
character and breaks off, and every byte that begins none, is shown by one replacement character.
-/

namespace MergeConflict.Text.Utf8

/-- What the first byte of a character tells: how many bytes follow, the range of the next one, and
the bits it gives. -/
structure Lead where
  count : Nat
  low : Nat
  high : Nat
  bits : Nat

/-- The ranges leave out long forms, surrogates and what lies beyond the last character. -/
def lead? (byte : Nat) : Option Lead :=
  if byte < 0x80 then some ⟨0, 0x80, 0xBF, byte⟩
  else if byte < 0xC2 then none
  else if byte < 0xE0 then some ⟨1, 0x80, 0xBF, byte % 0x20⟩
  else if byte = 0xE0 then some ⟨2, 0xA0, 0xBF, 0⟩
  else if byte = 0xED then some ⟨2, 0x80, 0x9F, 0xD⟩
  else if byte < 0xF0 then some ⟨2, 0x80, 0xBF, byte % 0x10⟩
  else if byte = 0xF0 then some ⟨3, 0x90, 0xBF, 0⟩
  else if byte < 0xF4 then some ⟨3, 0x80, 0xBF, byte % 8⟩
  else if byte = 0xF4 then some ⟨3, 0x80, 0x8F, 4⟩
  else none

/-- The leading bytes, `count` at most, that continue a character; the first lies in a range of its
own. -/
def tail (low high : Nat) : Nat → List UInt8 → List UInt8
  | 0, _ => []
  | _, [] => []
  | count + 1, byte :: rest =>
    if low ≤ byte.toNat ∧ byte.toNat ≤ high then byte :: tail 0x80 0xBF count rest else []

/-- The characters of bytes, none standing for bytes that are no character. -/
def scan : List UInt8 → List (Option Char)
  | [] => []
  | byte :: rest =>
    match lead? byte.toNat with
    | none => none :: scan rest
    | some lead =>
      let more := tail lead.low lead.high lead.count rest
      let value := more.foldl (fun n b => n * 64 + b.toNat % 64) lead.bits
      let found := if more.length = lead.count then some (Char.ofNat value) else none
      found :: scan (rest.drop more.length)
termination_by bytes => bytes.length
decreasing_by
  all_goals simp only [List.length_cons, List.length_drop]; omega

/-- The text that bytes spell, if they are UTF-8. -/
def decode? (bytes : List UInt8) : Option String :=
  ((scan bytes).mapM id).map String.ofList

/-- The text of bytes, with replacement characters. -/
def decodeLossy (bytes : List UInt8) : String :=
  String.ofList ((scan bytes).map fun c => c.getD '\uFFFD')

end MergeConflict.Text.Utf8
