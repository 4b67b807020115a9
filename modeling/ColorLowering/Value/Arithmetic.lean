import ColorLowering.Operator
import ColorLowering.Target
import ColorLowering.Ty.Basic
import ColorLowering.Value.Basic

/-!
# Arithmetic on scalar values

An operation or conversion has a result here when the emitted program would compute the same one in
every circumstance. Overflow, division by zero, shifts past the width, rounding to half precision
and, in double precision, arithmetic on floats have none.
-/
namespace ColorLowering
namespace Value

def ofInt? (i : Int) : Option Value :=
  if -0x80000000 ≤ i ∧ i < 0x80000000 then some (.int (Int32.ofInt i)) else none

def ofNat? (i : Int) : Option Value :=
  if 0 ≤ i ∧ i < 0x100000000 then some (.uint (UInt32.ofNat i.toNat)) else none

def isTrue : Value → Bool
  | .bool b => b
  | .int i => i ≠ 0
  | .uint u => u ≠ 0
  | .half x => !x.isZero
  | .float x => !x.isZero

/-- The whole number that a conversion to an integer type starts from. -/
def whole? : Value → Option Int
  | .bool b => some (if b then 1 else 0)
  | .int i => some i.toInt
  | .uint u => some u.toNat
  | .half x => x.truncate?
  | .float x => x.truncate?

def toFloat : Value → Binary32
  | .bool b => if b then ⟨0x3f800000⟩ else ⟨0⟩
  | .int i => .ofInt i
  | .uint u => .ofNat u
  | .half x => x
  | .float x => x

/-- Whether the value is still there after a conversion to float. -/
def isExactFloat : Value → Bool
  | .int i => (Binary32.ofInt i).truncate? = some i.toInt
  | .uint u => (Binary32.ofNat u).truncate? = some (u.toNat : Int)
  | _ => true

def toHalf? : Value → Option Value
  | .half x => some (.half x)
  | _ => none

def convert? (p : Precision) (v : Value) : Scalar → Option Value
  | .bool => some (.bool v.isTrue)
  | .int => v.whole?.bind ofInt?
  | .uint => v.whole?.bind ofNat?
  | .half => v.toHalf?
  | .float => if p = .double ∧ !v.isExactFloat then none else some (.float v.toFloat)

def convertTo? (p : Precision) (v : Value) (ty : Ty) : Option Value :=
  ty.scalar?.bind (v.convert? p)

def unary? : UnaryOp → Value → Option Value
  | .neg, .int i => ofInt? (-i.toInt)
  | .neg, .half x => some (.half x.neg)
  | .neg, .float x => some (.float x.neg)
  | .not, .bool b => some (.bool !b)
  | .bitNot, .int i => some (.int (~~~i))
  | .bitNot, .uint u => some (.uint (~~~u))
  | _, _ => none

def compareInt? (a b : Int) : BinaryOp → Option Value
  | .eq => some (.bool (a = b))
  | .ne => some (.bool (a ≠ b))
  | .lt => some (.bool (a < b))
  | .le => some (.bool (a ≤ b))
  | .gt => some (.bool (a > b))
  | .ge => some (.bool (a ≥ b))
  | _ => none

/-- Nothing compares with a number that is none, save as unequal. -/
def compareFloat? (x y : Binary32) : BinaryOp → Option Value
  | .eq => some (.bool (x.value == y.value))
  | .ne => some (.bool (x.value != y.value))
  | .lt => some (.bool (x.value < y.value))
  | .le => some (.bool (x.value ≤ y.value))
  | .gt => some (.bool (y.value < x.value))
  | .ge => some (.bool (y.value ≤ x.value))
  | _ => none

def binaryInt? (op : BinaryOp) (i j : Int32) : Option Value :=
  let a := i.toInt
  let b := j.toInt
  match op with
  | .add => ofInt? (a + b)
  | .sub => ofInt? (a - b)
  | .mul => ofInt? (a * b)
  | .div => if b = 0 then none else ofInt? (a.tdiv b)
  | .mod => if b = 0 ∨ (a = -0x80000000 ∧ b = -1) then none else ofInt? (a.tmod b)
  | .bitAnd => some (.int (i &&& j))
  | .bitOr => some (.int (i ||| j))
  | .bitXor => some (.int (i ^^^ j))
  | .shl => if 0 ≤ b ∧ b < 31 then ofInt? (a <<< b.toNat) else none
  | .shr => if 0 ≤ b ∧ b < 32 then ofInt? (a >>> b.toNat) else none
  | _ => compareInt? a b op

def binaryUInt? (op : BinaryOp) (u v : UInt32) : Option Value :=
  let a : Int := u.toNat
  let b : Int := v.toNat
  match op with
  | .add => ofNat? (a + b)
  | .sub => ofNat? (a - b)
  | .mul => ofNat? (a * b)
  | .div => if b = 0 then none else ofNat? (a / b)
  | .mod => if b = 0 then none else ofNat? (a % b)
  | .bitAnd => some (.uint (u &&& v))
  | .bitOr => some (.uint (u ||| v))
  | .bitXor => some (.uint (u ^^^ v))
  | .shl => if b < 32 then ofNat? ((a <<< b.toNat) % 0x100000000) else none
  | .shr => if b < 32 then ofNat? (a >>> b.toNat) else none
  | _ => compareInt? a b op

def binaryFloat? (op : BinaryOp) (x y : Binary32) : Option Value :=
  match op with
  | .add => some (.float (x.add y))
  | .sub => some (.float (x.sub y))
  | .mul => some (.float (x.mul y))
  | .div => if y.isZero then none else some (.float (x.div y))
  | _ => compareFloat? x y op

def binaryBool? (op : BinaryOp) (a b : Bool) : Option Value :=
  match op with
  | .and => some (.bool (a && b))
  | .or => some (.bool (a || b))
  | .eq => some (.bool (a == b))
  | .ne => some (.bool (a != b))
  | _ => none

/-- Both operands have the operand type already; halves are only compared. -/
def binary? (p : Precision) (op : BinaryOp) : Value → Value → Option Value
  | .int i, .int j => binaryInt? op i j
  | .uint u, .uint v => binaryUInt? op u v
  | .float x, .float y =>
    if p = .double ∧ !op.isComparison then none else binaryFloat? op x y
  | .half x, .half y => compareFloat? x y op
  | .bool a, .bool b => binaryBool? op a b
  | _, _ => none

end Value
end ColorLowering
