import ColorLowering.Decimal.Shortest

/-!
# Floating point literals

A finite number is written with its shortest digits, positionally or with an exponent; a point or an
exponent is always there, so the literal is never a whole number. The values that no digits denote
have names of their own.
-/
namespace ColorLowering
namespace Decimal

def zeros (n : Nat) : List Char := List.replicate n '0'

/-- Positional digits with at least one digit on either side of the point. -/
def positional (d : Decimal) : List Char :=
  let digits := Nat.toDigits 10 d.digits
  let places := (-d.exponent).toNat
  if d.exponent ≥ 0 then digits ++ zeros d.exponent.toNat ++ ['.', '0']
  else if places < digits.length then
    digits.take (digits.length - places) ++ '.' :: digits.drop (digits.length - places)
  else '0' :: '.' :: zeros (places - digits.length) ++ digits

/-- One digit before the point, no point after a lone digit, no sign on a positive exponent. -/
def scientific (d : Decimal) : List Char :=
  let digits := Nat.toDigits 10 d.digits
  let exponent := d.exponent + (digits.length - 1 : Nat)
  let fraction := if digits.length = 1 then [] else '.' :: digits.drop 1
  digits.take 1 ++ fraction ++ 'e' :: (toString exponent).toList

end Decimal

namespace Binary32

/-- Which magnitudes are written positionally, besides zero. -/
structure Layout where
  least : Binary32
  bound : Binary32

/-- From the number nearest 0.0001 up to, but not including, the one nearest 10000000000000000. -/
def layout : Layout := ⟨⟨0x38d1b717⟩, ⟨0x5a0e1bca⟩⟩

def Layout.isPositional (l : Layout) (x : Binary32) : Bool :=
  l.least.magnitude ≤ x.magnitude && x.magnitude < l.bound.magnitude

def unsignedChars (x : Binary32) : List Char :=
  if x.isZero then ['0', '.', '0']
  else if layout.isPositional x then x.shortest.positional
  else x.shortest.scientific

def finiteText (x : Binary32) : String :=
  String.ofList (if x.isNegative then '-' :: x.unsignedChars else x.unsignedChars)

def floatLiteral (x : Binary32) : String :=
  if x.isNaN then "FLT_NAN"
  else if x.isInfinite then if x.isNegative then "FLT_NEG_INF" else "FLT_POS_INF"
  else x.finiteText

def halfLiteral (x : Binary32) : String :=
  if x.isNaN then "HALF_NAN"
  else if x.isInfinite then if x.isNegative then "HALF_NEG_INF" else "HALF_POS_INF"
  else "half( " ++ x.finiteText ++ " )"

end Binary32
end ColorLowering
