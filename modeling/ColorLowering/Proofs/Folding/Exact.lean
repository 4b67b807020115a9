import ColorLowering.Value.Arithmetic
import Mathlib.Data.Int.Bitwise

/-!
# Exact arithmetic on whole numbers

The types of truth values and of signed and unsigned integers hold whole numbers, a truth value
being 0 or 1. The operators are defined here over all integers, on numbers of one such type. There
is no result where the type does not hold it, where the operator does not apply to the type, and for
division by zero and shifts by more than the width.
-/
namespace ColorLowering

namespace Scalar

def isWhole : Scalar → Bool
  | .bool | .int | .uint => true
  | .half | .float => false

def holds (s : Scalar) (n : Int) : Bool :=
  match s with
  | .bool => n = 0 ∨ n = 1
  | .int => -2 ^ 31 ≤ n ∧ n < 2 ^ 31
  | .uint => 0 ≤ n ∧ n < 2 ^ 32
  | .half | .float => false

def held? (s : Scalar) (n : Int) : Option Int := if s.holds n then some n else none

/-- Every number but zero is true. -/
def number? (s : Scalar) (n : Int) : Option Int :=
  match s with
  | .bool => some (decide (n ≠ 0)).toInt
  | _ => s.held? n

def numberText (s : Scalar) (n : Int) : String :=
  match s with
  | .bool => if n = 0 then "false" else "true"
  | _ => toString n

end Scalar

def UnaryOp.number? (op : UnaryOp) (s : Scalar) (a : Int) : Option Int :=
  match s, op with
  | .bool, .not => some (decide (a = 0)).toInt
  | .int, .neg => Scalar.int.held? (-a)
  | .int, .bitNot => some a.lnot
  | .uint, .bitNot => some (2 ^ 32 - 1 - a)
  | _, _ => none

/-- The type of what an operator yields on numbers of the type `s`. -/
def BinaryOp.yields (op : BinaryOp) (s : Scalar) : Scalar :=
  match op with
  | .eq | .ne | .lt | .le | .gt | .ge | .and | .or => .bool
  | _ => s

/-- The result of an operator on two numbers of the type `s`. Division rounds towards zero, a shift
to the right towards minus infinity, and an unsigned shift to the left drops the bits above. -/
def BinaryOp.number? (op : BinaryOp) (s : Scalar) (a b : Int) : Option Int :=
  match s, op with
  | _, .eq => some (decide (a = b)).toInt
  | _, .ne => some (decide (a ≠ b)).toInt
  | .bool, .and => some (decide (a ≠ 0 ∧ b ≠ 0)).toInt
  | .bool, .or => some (decide (a ≠ 0 ∨ b ≠ 0)).toInt
  | .bool, _ => none
  | _, .and => none
  | _, .or => none
  | _, .lt => some (decide (a < b)).toInt
  | _, .le => some (decide (a ≤ b)).toInt
  | _, .gt => some (decide (b < a)).toInt
  | _, .ge => some (decide (b ≤ a)).toInt
  | s, .add => s.held? (a + b)
  | s, .sub => s.held? (a - b)
  | s, .mul => s.held? (a * b)
  | _, .div => if b = 0 ∨ (a = -2 ^ 31 ∧ b = -1) then none else some (a.tdiv b)
  | _, .mod => if b = 0 ∨ (a = -2 ^ 31 ∧ b = -1) then none else some (a.tmod b)
  | _, .bitAnd => some (a.land b)
  | _, .bitOr => some (a.lor b)
  | _, .bitXor => some (a.xor b)
  | .int, .shl => if 0 ≤ b ∧ b < 31 then Scalar.int.held? (a * 2 ^ b.toNat) else none
  | _, .shl => if 0 ≤ b ∧ b < 32 then some (a * 2 ^ b.toNat % 2 ^ 32) else none
  | _, .shr => if 0 ≤ b ∧ b < 32 then some (a / 2 ^ b.toNat) else none

/-- The value is the number `n` of the type `s`. -/
inductive Value.Whole : Value → Scalar → Int → Prop
  | bool (b : Bool) : Whole (.bool b) .bool b.toInt
  | int (i : Int32) : Whole (.int i) .int i.toInt
  | uint (u : UInt32) : Whole (.uint u) .uint u.toNat

/-- A value and a number of the type `s` that are the same, or neither. -/
abbrev SameNumber (s : Scalar) : Option Value → Option Int → Prop :=
  Option.Rel fun v n => v.Whole s n

end ColorLowering
