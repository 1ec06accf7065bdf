import MergeConflict.Binary64

/-!
The shortest decimal that reads back as a given double.

On the grid of numbers with `n` significant digits the two neighbours of the value are tried, for
`n` from 1 on. The first grid with a neighbour in the interval of reals that round to the value
gives the digits; of two such neighbours the nearer one, at equal distance the even one.
-/

namespace MergeConflict.Binary64

/-- The whole digits of a quotient of at least one, less one; below one, the negated number of
places by which the point has to move right. -/
def decimalExponent (num den : Nat) : Nat → Int
  | 0 => 0
  | fuel + 1 =>
    if den ≤ num then ((Nat.toDigits 10 (num / den)).length : Int) - 1
    else decimalExponent (num * 10) den fuel - 1

/-- A significand and a power of ten. -/
structure Decimal where
  digits : Nat
  exponent : Int
deriving DecidableEq, Repr

/-- The neighbour on the grid of `n` significant digits that reads back, if there is one. `top` is
the decimal exponent of the value. -/
def onGrid? (m : Nat) (q top : Int) (n : Nat) : Option Decimal :=
  let exponent := top - n + 1
  let unit := scaled 1 (q - 2)
  let ten : Nat × Nat :=
    if 0 ≤ exponent then (Nat.pow 10 exponent.toNat, 1) else (1, Nat.pow 10 (-exponent).toNat)
  let grid (d : Nat) : Nat := d * ten.1 * unit.2
  let exact (quarters : Nat) : Nat := quarters * unit.1 * ten.2
  let low := exact (4 * m - if m = hiddenWeight ∧ -1074 < q then 1 else 2)
  let high := exact (4 * m + 2)
  let readsBack (d : Nat) : Bool :=
    if m % 2 = 0 then decide (low ≤ grid d) && decide (grid d ≤ high)
    else decide (low < grid d) && decide (grid d < high)
  let value := exact (4 * m)
  let below := value / (ten.1 * unit.2)
  match readsBack below, readsBack (below + 1) with
  | false, false => none
  | true, false => some ⟨below, exponent⟩
  | false, true => some ⟨below + 1, exponent⟩
  | true, true =>
    let down := value - grid below
    let up := grid (below + 1) - value
    if down < up ∨ (down = up ∧ below % 2 = 0) then some ⟨below, exponent⟩
    else some ⟨below + 1, exponent⟩

/-- The shortest decimal for a finite number other than zero; seventeen digits always suffice. -/
def shortestDecimal (x : Binary64) : Decimal :=
  let (m, q) := x.parts
  let value := scaled m q
  let top := decimalExponent value.1 value.2 400
  ((List.range 17).findSome? fun i => onGrid? m q top (i + 1)).getD ⟨m, 0⟩

/-- A decimal without zeros at its end. -/
def Decimal.trim (d : Decimal) : Nat → Decimal
  | 0 => d
  | fuel + 1 =>
    if d.digits % 10 = 0 ∧ d.digits ≠ 0 then Decimal.trim ⟨d.digits / 10, d.exponent + 1⟩ fuel
    else d

/-- Positional from 0.00001 to below 10¹⁶, always with a point; otherwise with an exponent. -/
def Decimal.text (d : Decimal) : String :=
  let digits := (toString d.digits).toList
  let point : Int := digits.length + d.exponent
  let zeros (n : Int) : List Char := List.replicate n.toNat '0'
  let chars :=
    if 0 ≤ d.exponent ∧ point ≤ 16 then digits ++ zeros d.exponent ++ ['.', '0']
    else if 0 < point ∧ point ≤ 16 then
      digits.take point.toNat ++ '.' :: digits.drop point.toNat
    else if -5 < point ∧ point ≤ 0 then '0' :: '.' :: zeros (-point) ++ digits
    else
      let mantissa :=
        match digits with
        | [d] => [d]
        | d :: rest => d :: '.' :: rest
        | [] => []
      mantissa ++ 'e' :: (toString (point - 1)).toList
  String.ofList chars

/-- The shortest text that reads back as a finite number. -/
def shortest (x : Binary64) : String :=
  let sign := if x.isNegative then "-" else ""
  if x.magnitude = 0 then sign ++ "0.0"
  else sign ++ (x.shortestDecimal.trim 20).text

end MergeConflict.Binary64
