import ColorLowering.Expr
import ColorLowering.Table
import ColorLowering.Value.Arithmetic

/-!
# The value of a constant expression

A constant expression over literals, operators and the constants folded before it is evaluated with
the conversions that its types ask for. Anything else has no value here.
-/
namespace ColorLowering.Expr

/-- The value of a constant expression, given those of the constants folded before it. -/
def value? (p : Precision) (folded : Table SymbolId Value) : Expr → Option Value
  | .literal _ (.scalar v) => some v
  | .name _ symbol => folded.get? symbol
  | .unary ty op operand => do
    let v ← (← operand.value? p folded).convertTo? p ty
    v.unary? op
  | .binary ty op operandTy left right => do
    let l ← (← left.value? p folded).convertTo? p operandTy
    let r ← (← right.value? p folded).convertTo? p operandTy
    (← l.binary? p op r).convertTo? p ty
  | _ => none

end ColorLowering.Expr
