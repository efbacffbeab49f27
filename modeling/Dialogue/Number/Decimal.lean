import Dialogue.Number.Binary

/-! The fewest decimal digits that identify a double, found by exact integer arithmetic. -/
namespace Dialogue.Number

/-- `digits * 10 ^ exponent` -/
structure Decimal where
  digits : Nat
  exponent : Int
deriving DecidableEq

/-- Which of two equally near decimals is taken. -/
inductive Tie where
  | toEven
  | up
deriving DecidableEq

/-- Compares `a * 10 ^ i` with `n * 2 ^ j`. -/
def compareScaled (a : Nat) (i : Int) (n : Nat) (j : Int) : Ordering :=
  compare (a * Nat.pow 10 i.toNat * Nat.pow 2 (-j).toNat)
    (n * Nat.pow 2 j.toNat * Nat.pow 10 (-i).toNat)

/-- The decimal lies among the reals that round to the double: between the midpoints to its
neighbours, with the midpoints themselves when the significand is even. -/
def Binary.readsBack (x : Binary) (d : Decimal) : Bool :=
  let low := if x.narrowBelow then 4 * x.significand - 1 else 4 * x.significand - 2
  let high := 4 * x.significand + 2
  let closed := x.significand % 2 == 0
  let atLow := compareScaled d.digits d.exponent low (x.exponent - 2)
  let atHigh := compareScaled d.digits d.exponent high (x.exponent - 2)
  (atLow == .gt || (closed && atLow == .eq)) && (atHigh == .lt || (closed && atHigh == .eq))

/-- The least `k` with the double below `10 ^ k`. The binary logarithm gives a bound from below
that is at most two short. -/
def Binary.scale (x : Binary) : Int :=
  let guess := (((x.significand.log2 : Int) + x.exponent) * 30103).fdiv 100000
  let below (k : Int) : Bool := compareScaled 1 k x.significand x.exponent == .gt
  if below guess then guess
  else if below (guess + 1) then guess + 1
  else if below (guess + 2) then guess + 2
  else guess + 3

/-- The double's neighbours on the grid of multiples of `10 ^ grid`: the one that reads back, the
nearer of two that do. -/
def Binary.onGrid (tie : Tie) (x : Binary) (grid : Int) : Option Decimal :=
  let numerator := x.significand * Nat.pow 2 x.exponent.toNat * Nat.pow 10 (-grid).toNat
  let denominator := Nat.pow 2 (-x.exponent).toNat * Nat.pow 10 grid.toNat
  let floor := numerator / denominator
  let lower : Decimal := ⟨floor, grid⟩
  let upper : Decimal := ⟨floor + 1, grid⟩
  match x.readsBack lower, x.readsBack upper with
  | false, false => none
  | true, false => some lower
  | false, true => some upper
  | true, true =>
      match compare (2 * (numerator % denominator)) denominator with
      | .lt => some lower
      | .gt => some upper
      | .eq => if tie == .toEven && floor % 2 == 0 then some lower else some upper

/-- Moves trailing zeros of the digits into the exponent, at most `fuel` of them. -/
def Decimal.strip : Nat → Decimal → Decimal
  | 0, d => d
  | fuel + 1, d =>
      if d.digits != 0 && d.digits % 10 == 0 then strip fuel ⟨d.digits / 10, d.exponent + 1⟩ else d

/-- The double written out in full. -/
def Binary.exact (x : Binary) : Decimal :=
  if 0 ≤ x.exponent then ⟨x.significand * Nat.pow 2 x.exponent.toNat, 0⟩
  else ⟨x.significand * Nat.pow 5 (-x.exponent).toNat, x.exponent⟩

/-- The fewest digits that read back as the double, and of those the nearest. Seventeen digits
identify every double. -/
def Binary.shortest (tie : Tie) (x : Binary) : Decimal :=
  let top := x.scale
  let found := (List.range 17).findSome? fun n => x.onGrid tie (top - (n + 1 : Nat))
  (found.getD x.exact).strip 20

end Dialogue.Number
