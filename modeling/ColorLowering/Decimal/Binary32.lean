/-!
# Binary floating point numbers of 32 bits

A number is its bit pattern. Its magnitude orders the patterns of one sign as their values, and a
finite magnitude has the value `significand * 2 ^ scale`. Sums, products and quotients are rounded
to the nearest number, which is the arithmetic of `Float32`; whatever has an exact description on
the pattern (sign, truncation, the test for zero) is given there.
-/
namespace ColorLowering

structure Binary32 where
  bits : UInt32
  deriving DecidableEq

namespace Binary32

def isNegative (x : Binary32) : Bool := x.bits.toNat ≥ 0x80000000

def magnitude (x : Binary32) : Nat := x.bits.toNat % 0x80000000

def infinite : Nat := 0x7f800000

def isNaN (x : Binary32) : Bool := x.magnitude > infinite

def isInfinite (x : Binary32) : Bool := x.magnitude = infinite

def isZero (x : Binary32) : Bool := x.magnitude = 0

def exponentField (x : Binary32) : Nat := x.magnitude / 0x800000

def significand (x : Binary32) : Nat :=
  if x.exponentField = 0 then x.magnitude else x.magnitude % 0x800000 + 0x800000

def scale (x : Binary32) : Int := (max x.exponentField 1 : Nat) - 150

def neg (x : Binary32) : Binary32 := ⟨x.bits ^^^ 0x80000000⟩

/-- The whole part of a finite number, rounded toward zero. -/
def truncate? (x : Binary32) : Option Int :=
  if x.magnitude ≥ infinite then none
  else
    let whole := if x.scale ≥ 0 then x.significand <<< x.scale.toNat
      else x.significand >>> (-x.scale).toNat
    some (if x.isNegative then -whole else whole)

def value (x : Binary32) : Float32 := Float32.ofBits x.bits

def ofValue (v : Float32) : Binary32 := ⟨v.toBits⟩

def add (x y : Binary32) : Binary32 := ofValue (x.value + y.value)

def sub (x y : Binary32) : Binary32 := ofValue (x.value - y.value)

def mul (x y : Binary32) : Binary32 := ofValue (x.value * y.value)

def div (x y : Binary32) : Binary32 := ofValue (x.value / y.value)

/-- The nearest number, to the even neighbor where two are equally near. -/
def ofInt (i : Int32) : Binary32 := ofValue i.toFloat32

def ofNat (n : UInt32) : Binary32 := ofValue n.toFloat32

end Binary32
end ColorLowering
