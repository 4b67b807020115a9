import ColorLowering.Operator
import ColorLowering.Symbol
import ColorLowering.Value.Basic

/-!
# Expressions

Every node carries the type of its value. An aggregate lists the leaves of its type in order. A call
lists one slot for each parameter of its callee; a slot that no argument fills has the parameter's
default expression, together with the identity of that expression, which all calls of the function
share. An expression that would contain itself is unresolved where it comes again.
-/
namespace ColorLowering

structure ExprId where
  index : Nat
  deriving DecidableEq

inductive Literal where
  | scalar (value : Value)
  | string (s : String)

mutual
inductive Expr where
  | literal (ty : Ty) (value : Literal)
  | name (ty : Ty) (symbol : SymbolId)
  | binary (ty : Ty) (op : BinaryOp) (operandTy : Ty) (left right : Expr)
  | unary (ty : Ty) (op : UnaryOp) (operand : Expr)
  | index (ty : Ty) (array position : Expr)
  | member (ty : Ty) (object : Expr) (name : String)
  | call (ty : Ty) (callee : Callee) (args : List Expr)
  | aggregate (ty : Ty) (leaves : List Expr)
  | size (ty : Ty) (array : Expr)
  | unresolved (ty : Ty)

/-- Only a call of a function by name can be lowered. -/
inductive Callee where
  | function (symbol : SymbolId) (slots : List Slot)
  | variable (symbol : SymbolId)
  | computed

inductive Slot where
  | required (name : String) (ty : Ty)
  | optional (name : String) (ty : Ty) (id : ExprId) (default : Expr)
end

def Slot.ty : Slot → Ty
  | .required _ ty => ty
  | .optional _ ty _ _ => ty

def Callee.symbol? : Callee → Option SymbolId
  | .function symbol _ => some symbol
  | .variable symbol => some symbol
  | .computed => none

namespace Expr

def ty : Expr → Ty
  | .literal ty _ => ty
  | .name ty _ => ty
  | .binary ty _ _ _ _ => ty
  | .unary ty _ _ => ty
  | .index ty _ _ => ty
  | .member ty _ _ => ty
  | .call ty _ _ => ty
  | .aggregate ty _ => ty
  | .size ty _ => ty
  | .unresolved ty => ty

def isAggregate : Expr → Bool
  | .aggregate .. => true
  | _ => false

end Expr
end ColorLowering
