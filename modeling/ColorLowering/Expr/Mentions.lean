import ColorLowering.Expr
import ColorLowering.Table

/-!
# What an expression mentions

Which names an expression reads, which functions it calls, and whether it is built from literals
alone. The defaults that a call omits are not part of the expression.
-/
namespace ColorLowering.Expr

mutual
def isLiteral (literals : Table SymbolId String) : Expr → Bool
  | .literal .. => true
  | .name _ symbol => literals.contains symbol
  | .aggregate _ leaves => allLiteral literals leaves
  | .binary _ _ _ left right => left.isLiteral literals && right.isLiteral literals
  | .unary _ _ operand => operand.isLiteral literals
  | _ => false

def allLiteral (literals : Table SymbolId String) : List Expr → Bool
  | [] => true
  | e :: es => e.isLiteral literals && allLiteral literals es
end

mutual
/-- The named callees of all calls, in the order in which they stand. -/
def callees : Expr → List SymbolId
  | .literal .. => []
  | .name .. => []
  | .binary _ _ _ left right => left.callees ++ right.callees
  | .unary _ _ operand => operand.callees
  | .index _ array position => array.callees ++ position.callees
  | .member _ object _ => object.callees
  | .call _ callee args => callee.symbol?.toList ++ calleesAll args
  | .aggregate _ leaves => calleesAll leaves
  | .size _ array => array.callees
  | .unresolved _ => []

def calleesAll : List Expr → List SymbolId
  | [] => []
  | e :: es => e.callees ++ calleesAll es
end

mutual
/-- The symbols that are read, callees apart. -/
def names : Expr → List SymbolId
  | .literal .. => []
  | .name _ symbol => [symbol]
  | .binary _ _ _ left right => left.names ++ right.names
  | .unary _ _ operand => operand.names
  | .index _ array position => array.names ++ position.names
  | .member _ object _ => object.names
  | .call _ _ args => namesAll args
  | .aggregate _ leaves => namesAll leaves
  | .size _ array => array.names
  | .unresolved _ => []

def namesAll : List Expr → List SymbolId
  | [] => []
  | e :: es => e.names ++ namesAll es
end

end ColorLowering.Expr
