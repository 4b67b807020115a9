import ColorLowering.Decimal.Literal

/-!
# Scalar values

The values that a constant expression can have, and their literal texts. A half is kept as the
32-bit number of the same value.
-/
namespace ColorLowering

inductive Value where
  | bool (b : Bool)
  | int (i : Int32)
  | uint (u : UInt32)
  | half (x : Binary32)
  | float (x : Binary32)
  deriving DecidableEq

namespace Value

def text : Value → String
  | .bool b => if b then "true" else "false"
  | .int i => toString i.toInt
  | .uint u => toString u.toNat
  | .half x => x.halfLiteral
  | .float x => x.floatLiteral

end Value
end ColorLowering
