/-! A double as an integer times a power of two, and back. -/
namespace Dialogue.Number

/-- A finite non-negative double, `significand * 2 ^ exponent`. -/
structure Binary where
  significand : Nat
  exponent : Int
  /-- The gap to the double below is half the gap to the one above. -/
  narrowBelow : Bool

/-- Whether the sign bit is set; it is for the negative zero too. -/
def isNegative (x : Float) : Bool := x.toBits >>> 63 == 1

/-- The bit of weight `2 ^ 52`, which a double does not store. -/
def leadingBit : Nat := 0x10000000000000

/-- The magnitude of a finite double. The infinities and NaN have none: test for them first. -/
def Binary.ofFloat (x : Float) : Binary :=
  let scale := ((x.toBits >>> 52) &&& 0x7FF).toNat
  let fraction := (x.toBits &&& 0xFFFFFFFFFFFFF).toNat
  if scale == 0 then ⟨fraction, -1074, false⟩
  else ⟨leadingBit + fraction, (scale : Int) - 1075, fraction == 0 && scale > 1⟩

/-- The double `± significand * 2 ^ exponent`, for a value that some double equals. -/
def ofExact (negative : Bool) (significand : Nat) (exponent : Int) : Float :=
  let sign : Nat := if negative then 0x8000000000000000 else 0
  if significand == 0 then Float.ofBits sign.toUInt64
  else
    let drop : Int := max ((significand.log2 : Int) - 52) (-1074 - exponent)
    let aligned := (significand <<< (-drop).toNat) >>> drop.toNat
    let scale : Nat := (exponent + drop + 1075).toNat
    let body :=
      if aligned < leadingBit then aligned else scale * leadingBit + (aligned - leadingBit)
    Float.ofBits (sign + body).toUInt64

def nan : Float := 0.0 / 0.0

def infinity : Float := 1.0 / 0.0

/-- What is left of `x` after taking away whole multiples of `y`, with the sign of `x`. It is
exact: both are brought to the smaller of their two powers of two. -/
def remainder (x y : Float) : Float :=
  if x.isNaN || y.isNaN || x.isInf || y == 0.0 then nan
  else if y.isInf then x
  else
    let a := Binary.ofFloat x
    let b := Binary.ofFloat y
    let low := min a.exponent b.exponent
    let left := a.significand <<< (a.exponent - low).toNat
    let right := b.significand <<< (b.exponent - low).toNat
    ofExact (isNegative x) (left % right) low

end Dialogue.Number
