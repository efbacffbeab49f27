import Dialogue.Number.Decimal

/-! How the digits of a number are set out as text. -/
namespace Dialogue.Number

/-- The decisions of one format for numbers. -/
structure Layout where
  tie : Tie
  /-- The exponents of the leading digit that are written without a power of ten. -/
  positional : Int → Bool
  /-- Whole numbers end in a point and a zero. -/
  fraction : Bool

namespace Layout

/-- Numbers as they are shown to a reader: never a power of ten, no fraction unless needed. -/
def shown : Layout where
  tie := .up
  positional := fun _ => true
  fraction := false

/-- Numbers as they are stored: positional from `0.00001` to below ten thousand million million,
always with a fraction there. -/
def stored : Layout where
  tie := .toEven
  positional := fun lead => -5 ≤ lead && lead < 16
  fraction := true

def digitsOf (n : Nat) : List Char := Nat.toDigits 10 n

def zeros (n : Nat) : List Char := List.replicate n '0'

/-- Digits around a point that has `before` of them in front of it. -/
def place (fraction : Bool) (digits : List Char) (before : Int) : List Char :=
  if before ≤ 0 then '0' :: '.' :: zeros (-before).toNat ++ digits
  else if digits.length ≤ before.toNat then
    digits ++ zeros (before.toNat - digits.length) ++ (if fraction then ['.', '0'] else [])
  else digits.take before.toNat ++ '.' :: digits.drop before.toNat

/-- One digit, a point and the other digits if there are any, and a signed power of ten. -/
def scientific (digits : List Char) (lead : Int) : List Char :=
  let mantissa := match digits with
    | [] => []
    | [d] => [d]
    | d :: rest => d :: '.' :: rest
  let power := (if lead < 0 then '-' else '+') :: digitsOf lead.natAbs
  mantissa ++ 'e' :: power

/-- The text of a finite double's magnitude. -/
def magnitude (layout : Layout) (x : Float) : List Char :=
  let binary := Binary.ofFloat x
  if binary.significand == 0 then place layout.fraction ['0'] 1
  else
    let decimal := binary.shortest layout.tie
    let digits := digitsOf decimal.digits
    let before := (digits.length : Int) + decimal.exponent
    if layout.positional (before - 1) then place layout.fraction digits before
    else scientific digits (before - 1)

def render (layout : Layout) (x : Float) : String :=
  if x.isNaN then "NaN"
  else
    let body := if x.isInf then ['i', 'n', 'f'] else layout.magnitude x
    String.ofList (if isNegative x then '-' :: body else body)

end Layout
end Dialogue.Number
