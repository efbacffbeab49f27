import Dialogue.Number.Binary

/-! Reading decimal text as the nearest double. -/
namespace Dialogue.Number

def digitValue (c : Char) : Nat := c.toNat - '0'.toNat

/-- The number that a run of decimal digits writes. -/
def natOfDigits (digits : List Char) : Nat :=
  digits.foldl (fun n c => 10 * n + digitValue c) 0

/-- The double nearest to `digits * 10 ^ exponent`. Far outside the range of doubles the power is
not formed. -/
def nearest (digits : Nat) (exponent : Int) : Float :=
  let top := (Nat.toDigits 10 digits).length + exponent
  if digits == 0 || top < -330 then 0.0
  else if top > 310 then infinity
  else Float.ofScientific digits (exponent < 0) exponent.natAbs

/-- The number that the digits of a power write. From the first digit that takes it to `2 ^ 16` on
they are not read: such a power is far outside the range of doubles. -/
def powerOfDigits (digits : List Char) : Nat :=
  digits.foldl (fun n c => if n < 0x10000 then 10 * n + digitValue c else n) 0

/-- The power of ten after the digits: nothing, or a mark, a sign if any, and digits to the end. -/
def readExponent? : List Char → Option Int
  | [] => some 0
  | mark :: rest =>
      let (negative, digits) := match rest with
        | '-' :: digits => (true, digits)
        | '+' :: digits => (false, digits)
        | digits => (false, digits)
      if (mark == 'e' || mark == 'E') && !digits.isEmpty && digits.all Char.isDigit then
        let n : Int := powerOfDigits digits
        some (if negative then -n else n)
      else none

/-- A magnitude: a word for infinity or NaN in any case, or digits with at most one point among
them and a power of ten. -/
def readMagnitude? (text : List Char) : Option Float :=
  let lower := String.ofList (text.map Char.toLower)
  if lower == "inf" || lower == "infinity" then some infinity
  else if lower == "nan" then some nan
  else
    let whole := text.takeWhile Char.isDigit
    let (fraction, rest) := match text.dropWhile Char.isDigit with
      | '.' :: after => (after.takeWhile Char.isDigit, after.dropWhile Char.isDigit)
      | other => ([], other)
    if whole.isEmpty && fraction.isEmpty then none
    else (readExponent? rest).map fun power =>
      nearest (natOfDigits (whole ++ fraction)) (power - fraction.length)

/-- Reads a whole text as a number, with a sign in front if any. -/
def read? (text : List Char) : Option Float :=
  match text with
  | '-' :: rest => (readMagnitude? rest).map fun x => -x
  | '+' :: rest => readMagnitude? rest
  | _ => readMagnitude? text

end Dialogue.Number
