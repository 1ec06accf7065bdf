import MergeConflict.Json

/-!
The value of a JSON number literal.

An integer literal that fits 64 bits stands for itself, except `-0`, which is the double `-0`. Any
other literal is read as its leading digits, as many as fit 64 bits unsigned, rounded to a double
and scaled by a power of ten, the result being rounded again.
-/

namespace MergeConflict.Json

/-- A literal taken apart: digits in front of the point, digits behind it, and the exponent. -/
structure Numeral where
  isNegative : Bool
  whole : List Nat
  fraction : List Nat
  exponent : Int
  isInteger : Bool
deriving DecidableEq, Repr

namespace Numeral

/-- The first number that 64 bits do not hold. -/
def limit : Nat := UInt64.size

/-- Digits read behind `significand` while the result fits; the digits that do not are counted. -/
def absorb (significand : Nat) : List Nat → Nat × Nat
  | [] => (significand, 0)
  | digit :: rest =>
    if significand * 10 + digit < limit then absorb (significand * 10 + digit) rest
    else (significand, rest.length + 1)

/-- A significand times a power of ten as a double; `none` beyond the largest one. -/
def scale (significand : Nat) (exponent : Int) : Option Binary64 :=
  let x := Binary64.ofNat significand
  if significand = 0 then some Binary64.zero
  else if 308 < exponent then none
  else if 0 ≤ exponent then
    let y := x.mulMagnitude (Binary64.powerOfTen exponent.toNat)
    if y.isFinite then some y else none
  else
    let down (y : Binary64) (n : Nat) : Binary64 := y.divMagnitude (Binary64.powerOfTen n)
    let n := (-exponent).toNat
    if n ≤ 308 then some (down x n)
    else if n ≤ 616 then some (down (down x 308) (n - 308))
    else some Binary64.zero

def toReal? (numeral : Numeral) : Option Binary64 :=
  let (significand, dropped) := absorb 0 numeral.whole
  let (significand, behind) := absorb significand numeral.fraction
  let exponent := (dropped : Int) - (numeral.fraction.length - behind : Nat) + numeral.exponent
  (scale significand exponent).map fun x => if numeral.isNegative then x.negate else x

/-- The value of the literal. -/
def toJson (numeral : Numeral) : Json :=
  let n := numeral.whole.foldl (fun n digit => n * 10 + digit) 0
  if numeral.isInteger && !numeral.isNegative && decide (n < limit) then .int n
  else if numeral.isInteger && numeral.isNegative && n != 0 && decide (2 * n ≤ limit) then .int (-n)
  else
    match numeral.toReal? with
    | some x => .real x
    | none => .flawed

end Numeral

end MergeConflict.Json
