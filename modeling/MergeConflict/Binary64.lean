/-!
Double-precision numbers by their bits: order, rounding of exact quotients, and two fixed places.

A finite number is `m · 2 ^ q` for a natural `m`; every operation works on that exact value and
rounds once, to the nearest double, a tie going to the even one. The total order of the ranks is the
order of these values, with `-0` below `0` and a NaN at either end (`rank_lt_iff`, `isNaN_iff`).
-/

namespace MergeConflict

/-- A double-precision number. -/
structure Binary64 where
  bits : UInt64
deriving DecidableEq, Repr

namespace Binary64

def zero : Binary64 := ⟨0⟩

def nan : Binary64 := ⟨0x7ff8000000000000⟩

def infinity : Binary64 := ⟨0x7ff0000000000000⟩

/-- The weight of the sign bit. -/
def signWeight : Nat := 0x8000000000000000

/-- The weight of the bit in front of a fraction, which is not stored. -/
def hiddenWeight : Nat := 0x10000000000000

def isNegative (x : Binary64) : Bool :=
  decide (signWeight ≤ x.bits.toNat)

/-- All bits but the sign. -/
def magnitude (x : Binary64) : Nat :=
  x.bits.toNat % signWeight

def isNaN (x : Binary64) : Bool :=
  decide (infinity.magnitude < x.magnitude)

def isFinite (x : Binary64) : Bool :=
  decide (x.magnitude < infinity.magnitude)

def negate (x : Binary64) : Binary64 :=
  ⟨x.bits ^^^ 0x8000000000000000⟩

/-- Above zero in the numeric order; a NaN is not. -/
def isPositive (x : Binary64) : Bool :=
  !x.isNegative && x.magnitude != 0 && !x.isNaN

/-- The rank of a number in the total order, in which `-0` stands below `0`, and a NaN beyond the
infinity of its sign. -/
def rank (x : Binary64) : Int :=
  if x.isNegative then -(x.magnitude : Int) - 1 else x.magnitude

/-- The exact value of a finite magnitude as `m · 2 ^ q`. -/
def parts (x : Binary64) : Nat × Int :=
  let e : Nat := x.magnitude / hiddenWeight
  let m : Nat := x.magnitude % hiddenWeight
  if e = 0 then (m, -1074) else (m + hiddenWeight, (e : Int) - 1075)

/-! ## The numeric order -/

/-- A finite magnitude in units of the least one above zero, which is `2 ^ -1074`. Infinity comes to
`2 ^ 1024`, and a NaN further up. -/
def units (x : Binary64) : Nat :=
  x.parts.1 * Nat.pow 2 (x.parts.2 + 1074).toNat

/-- A finite number in the same units. -/
def value (x : Binary64) : Int :=
  if x.isNegative then -(x.units : Int) else x.units

theorem units_of_exponent_eq_zero {x : Binary64} (least : x.magnitude / hiddenWeight = 0) :
    x.units = x.magnitude % hiddenWeight := by
  have parts : x.parts = (x.magnitude % hiddenWeight, -1074) := if_pos least
  rw [units, parts]
  exact Nat.mul_one _

theorem units_of_exponent_ne_zero {x : Binary64} (above : x.magnitude / hiddenWeight ≠ 0) :
    x.units = (x.magnitude % hiddenWeight + hiddenWeight) *
      Nat.pow 2 (x.magnitude / hiddenWeight - 1) := by
  have parts : x.parts = (x.magnitude % hiddenWeight + hiddenWeight,
      ((x.magnitude / hiddenWeight : Nat) : Int) - 1075) :=
    if_neg above
  have place : (((x.magnitude / hiddenWeight : Nat) : Int) - 1075 + 1074).toNat =
      x.magnitude / hiddenWeight - 1 := by omega
  rw [units, parts, place]

/-- Numbers with one exponent stay below those with the next. -/
theorem units_lt (x : Binary64) :
    x.units < hiddenWeight * Nat.pow 2 (x.magnitude / hiddenWeight) := by
  have low : x.magnitude % hiddenWeight < hiddenWeight := Nat.mod_lt _ (by decide)
  by_cases least : x.magnitude / hiddenWeight = 0
  · rw [units_of_exponent_eq_zero least, least]
    exact Nat.lt_of_lt_of_eq low (Nat.mul_one _).symm
  · obtain ⟨e, exponent⟩ := Nat.exists_eq_succ_of_ne_zero least
    have twice : hiddenWeight * Nat.pow 2 (e + 1) = hiddenWeight * 2 * Nat.pow 2 e :=
      (congrArg (hiddenWeight * ·) Nat.pow_succ').trans (Nat.mul_assoc ..).symm
    rw [units_of_exponent_ne_zero least, exponent, Nat.succ_eq_add_one, Nat.add_sub_cancel, twice]
    exact Nat.mul_lt_mul_of_pos_right (by omega) (Nat.pow_pos (by decide))

theorem le_units {x : Binary64} (above : x.magnitude / hiddenWeight ≠ 0) :
    hiddenWeight * Nat.pow 2 (x.magnitude / hiddenWeight - 1) ≤ x.units := by
  rw [units_of_exponent_ne_zero above]
  exact Nat.mul_le_mul_right _ (Nat.le_add_left ..)

/-- Magnitudes are ordered as their bits. -/
theorem units_lt_of_magnitude_lt {x y : Binary64} (less : x.magnitude < y.magnitude) :
    x.units < y.units := by
  rcases Nat.lt_or_eq_of_le (Nat.div_le_div_right (c := hiddenWeight) (Nat.le_of_lt less)) with
    lower | same
  · have above : y.magnitude / hiddenWeight ≠ 0 := Nat.ne_zero_of_lt lower
    calc x.units < hiddenWeight * Nat.pow 2 (x.magnitude / hiddenWeight) := x.units_lt
      _ ≤ hiddenWeight * Nat.pow 2 (y.magnitude / hiddenWeight - 1) :=
        Nat.mul_le_mul_left _ (Nat.pow_le_pow_right (by decide) (by omega))
      _ ≤ y.units := le_units above
  · have fraction : x.magnitude % hiddenWeight < y.magnitude % hiddenWeight := by
      have xs := Nat.div_add_mod x.magnitude hiddenWeight
      have ys := Nat.div_add_mod y.magnitude hiddenWeight
      rw [same] at xs
      omega
    by_cases least : x.magnitude / hiddenWeight = 0
    · rw [units_of_exponent_eq_zero least, units_of_exponent_eq_zero (same ▸ least)]
      exact fraction
    · rw [units_of_exponent_ne_zero least, units_of_exponent_ne_zero (same ▸ least), same]
      exact Nat.mul_lt_mul_of_pos_right (by omega) (Nat.pow_pos (by decide))

theorem units_lt_iff {x y : Binary64} : x.units < y.units ↔ x.magnitude < y.magnitude := by
  refine ⟨fun less => ?_, units_lt_of_magnitude_lt⟩
  rcases Nat.lt_trichotomy x.magnitude y.magnitude with lower | same | higher
  · exact lower
  · simp only [units, parts, same, Nat.lt_irrefl] at less
  · exact absurd (units_lt_of_magnitude_lt higher) (Nat.lt_asymm less)

theorem units_pos_iff {x : Binary64} : 0 < x.units ↔ x.magnitude ≠ 0 :=
  (@units_lt_iff zero x).trans Nat.pos_iff_ne_zero

/-- The rank orders numbers by their values, and puts `-0` below `0`. -/
theorem rank_lt_iff {x y : Binary64} :
    x.rank < y.rank ↔
      x.value < y.value ∨ x.value = y.value ∧ x.isNegative = true ∧ y.isNegative = false := by
  have less := @units_lt_iff x y
  have more := @units_lt_iff y x
  have xs := @units_pos_iff x
  have ys := @units_pos_iff y
  unfold rank value
  cases x.isNegative <;> cases y.isNegative <;> simp <;> omega

/-- A number is above zero if its value is. -/
theorem isPositive_iff {x : Binary64} :
    x.isPositive = true ↔ x.isNaN = false ∧ 0 < x.value := by
  have pos := @units_pos_iff x
  unfold isPositive value
  cases x.isNegative with
  | true => simp
  | false => simp [and_comm, pos]

theorem rank_infinity : infinity.rank = (infinity.magnitude : Int) := by
  decide

theorem rank_negate_infinity : infinity.negate.rank = -(infinity.magnitude : Int) - 1 := by
  decide

/-- A finite number ranks between the infinities. -/
theorem isFinite_iff {x : Binary64} :
    x.isFinite = true ↔ infinity.negate.rank < x.rank ∧ x.rank < infinity.rank := by
  rw [rank_infinity, rank_negate_infinity, isFinite, rank, decide_eq_true_iff]
  cases x.isNegative with
  | true =>
    rw [if_pos rfl]
    omega
  | false =>
    rw [if_neg Bool.false_ne_true]
    omega

/-- A NaN ranks beyond the infinity of its sign. -/
theorem isNaN_iff {x : Binary64} :
    x.isNaN = true ↔ x.rank < infinity.negate.rank ∨ infinity.rank < x.rank := by
  rw [rank_infinity, rank_negate_infinity, isNaN, rank, decide_eq_true_iff]
  cases x.isNegative with
  | true =>
    rw [if_pos rfl]
    omega
  | false =>
    rw [if_neg Bool.false_ne_true]
    omega

/-! ## Rounding -/

/-- A quotient rounded to the nearest natural, a tie to the even one. -/
def roundDiv (num den : Nat) : Nat :=
  let q := num / den
  let twice := 2 * (num % den)
  if twice < den then q else if den < twice then q + 1 else q + q % 2

/-- `num · 2 ^ q` as a quotient of naturals. -/
def scaled (num : Nat) (q : Int) : Nat × Nat :=
  if 0 ≤ q then (num * Nat.pow 2 q.toNat, 1) else (num, Nat.pow 2 (-q).toNat)

/-- The double nearest to a quotient; beyond the largest one, infinity. -/
def ofRatio (num den : Nat) : Binary64 :=
  if num = 0 then zero
  else
    let guess : Int := (num.log2 : Int) - den.log2 - 52
    let below := scaled den guess
    let e := if num * below.2 < hiddenWeight * below.1 then guess - 1 else guess
    let e := max e (-1074)
    let divisor := scaled den e
    let m := roundDiv (num * divisor.2) divisor.1
    let bits := m + (e + 1074).toNat * hiddenWeight
    if infinity.magnitude ≤ bits then infinity else ⟨UInt64.ofNat bits⟩

def ofNat (n : Nat) : Binary64 :=
  ofRatio n 1

def ofInt (i : Int) : Binary64 :=
  if i < 0 then (ofNat i.natAbs).negate else ofNat i.natAbs

/-- The product of two finite magnitudes. -/
def mulMagnitude (x y : Binary64) : Binary64 :=
  let (m, q) := x.parts
  let (n, r) := y.parts
  let product := scaled (m * n) (q + r)
  ofRatio product.1 product.2

/-- The quotient of two finite magnitudes, the second not zero. -/
def divMagnitude (x y : Binary64) : Binary64 :=
  let (m, q) := x.parts
  let (n, r) := y.parts
  let quotient := scaled m (q - r)
  ofRatio quotient.1 (quotient.2 * n)

/-- A power of ten, up to the largest one that is a finite double. -/
def powerOfTen (n : Nat) : Binary64 :=
  ofNat (Nat.pow 10 n)

/-- A number to two places. The exact value is rounded, a tie to the even last digit; the sign of
a negative number stays even if all digits are zero. -/
def twoPlaces (x : Binary64) : String :=
  if x.isNaN then "NaN"
  else
    let sign := if x.isNegative then "-" else ""
    if !x.isFinite then sign ++ "inf"
    else
      let (m, q) := x.parts
      let hundredths := scaled (m * 100) q
      let n := roundDiv hundredths.1 hundredths.2
      let cents := n % 100
      sign ++ toString (n / 100) ++ "." ++ (if cents < 10 then "0" else "") ++ toString cents

private def hexDigit (n : Nat) : Char :=
  if n < 10 then Char.ofNat (48 + n) else Char.ofNat (87 + n)

/-- The bits as sixteen hexadecimal digits. -/
def hex (x : Binary64) : String :=
  String.ofList ((List.range 16).map fun i => hexDigit (x.bits.toNat >>> (4 * (15 - i)) % 16))

end Binary64

end MergeConflict
