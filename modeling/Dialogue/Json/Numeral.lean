import Dialogue.Json
import Dialogue.Number.Reading

/-! JSON numerals: how they are written, and the numbers they stand for. The digits are gathered
into 64 bits and scaled once by a power of ten; digits that no longer fit only move the power. -/
namespace Dialogue.Json

/-- A numeral as it is written. -/
structure Numeral where
  negative : Bool
  whole : List Char
  /-- the digits after a point, none without one -/
  fraction : List Char
  /-- whether the power of ten is negative, and its digits -/
  power : Option (Bool × List Char)

namespace Numeral

/-- A point has at least one digit after it. -/
def scanFraction? : List Char → Option (List Char × List Char)
  | '.' :: rest =>
      let digits := rest.takeWhile Char.isDigit
      if digits.isEmpty then none else some (digits, rest.drop digits.length)
  | rest => some ([], rest)

/-- A power after its mark: a sign if any, and at least one digit. -/
def scanSigned? (rest : List Char) : Option (Option (Bool × List Char) × List Char) :=
  let (down, rest) := match rest with
    | '-' :: rest => (true, rest)
    | '+' :: rest => (false, rest)
    | rest => (false, rest)
  let digits := rest.takeWhile Char.isDigit
  if digits.isEmpty then none else some (some (down, digits), rest.drop digits.length)

def scanPower? : List Char → Option (Option (Bool × List Char) × List Char)
  | 'e' :: rest => scanSigned? rest
  | 'E' :: rest => scanSigned? rest
  | rest => some (none, rest)

/-- A numeral after its sign. A leading zero stands alone. -/
def scanMagnitude? (negative : Bool) (rest : List Char) : Option (Numeral × List Char) :=
  let whole := rest.takeWhile Char.isDigit
  if whole.isEmpty || (whole.head? == some '0' && 1 < whole.length) then none
  else do
    let (fraction, rest) ← scanFraction? (rest.drop whole.length)
    let (power, rest) ← scanPower? rest
    return (⟨negative, whole, fraction, power⟩, rest)

/-- The numeral that a text starts with, and what follows it. -/
def scan? : List Char → Option (Numeral × List Char)
  | '-' :: rest => scanMagnitude? true rest
  | rest => scanMagnitude? false rest

/-- Whether one more digit keeps the gathered digits within 64 bits. -/
def fits (digits : Nat) (c : Char) : Bool :=
  10 * digits + Dialogue.Number.digitValue c < UInt64.size

/-- Adds digits to those gathered before as long as they fit, and counts them. -/
def gather (digits : Nat) : List Char → Nat × Nat
  | [] => (digits, 0)
  | c :: rest =>
      if fits digits c then
        let (all, count) := gather (10 * digits + Dialogue.Number.digitValue c) rest
        (all, count + 1)
      else (digits, 0)

/-- Scales by a power of ten within the range of doubles. Beyond it, small numbers are divided
down step by step. -/
def scale : Nat → Float → Int → Option Float
  | 0, _, _ => none
  | fuel + 1, x, power =>
      if power.natAbs ≤ 308 then
        let factor := Float.ofScientific 1 false power.natAbs
        if 0 ≤ power then
          let product := x * factor
          if product.isInf then none else some product
        else some (x / factor)
      else if x == 0.0 then some x
      else if 0 ≤ power then none
      else scale fuel (x / 1e308) (power + 308)

/-- The double `± digits * 10 ^ power`. A double vanishes after three divisions, so few steps
suffice. -/
def toFloat? (negative : Bool) (digits : Nat) (power : Int) : Option Float :=
  (scale 8 (Float.ofNat digits) power).map fun x => if negative then -x else x

/-- The largest power of ten that is read as such. -/
def maxPower : Nat := 2147483647

/-- The double with a written power on top of the one gathered. A written power that is too large
gives zero, unless it would give an infinite number. -/
def scaled? (negative : Bool) (digits : Nat) (power : Int) :
    Option (Bool × List Char) → Option Float
  | none => toFloat? negative digits power
  | some (down, written) =>
      let size := Dialogue.Number.natOfDigits written
      if maxPower < size then
        if digits != 0 && !down then none else some (if negative then -0.0 else 0.0)
      else
        toFloat? negative digits
          (if down then max (power - size) (-maxPower - 1) else min (power + size) maxPower)

/-- A whole number where it fits 64 bits. The negative zero does not. -/
def exact (negative : Bool) (digits : Nat) : Number :=
  if !negative then .int digits
  else if 0 < digits && Int64.minValue.toInt ≤ -digits then .int (-(digits : Int))
  else .float (-(Float.ofNat digits))

/-- The number that a numeral stands for. There is none beyond the range of doubles. -/
def value? (n : Numeral) : Option Number :=
  let (digits, count) := gather 0 n.whole
  let beyond := n.whole.length - count
  if n.fraction.isEmpty && n.power.isNone && beyond == 0 then some (exact n.negative digits)
  else
    let (digits, places) := gather digits n.fraction
    (scaled? n.negative digits ((beyond : Int) - places) n.power).map .float

end Numeral
end Dialogue.Json
