import ColorLowering.Expr

/-!
# Statements

A statement that would contain itself is unresolved where it comes again.
-/
namespace ColorLowering

inductive Stmt where
  | declare (symbol : SymbolId) (init : Option Expr)
  | assign (target value : Expr)
  | eval (e : Expr)
  | branch (cond : Expr) (thenBody elseBody : List Stmt)
  | loop (cond : Expr) (body : List Stmt)
  | ret (value : Option Expr)
  | unresolved

namespace Stmt

def isDeclaration : Stmt → Bool
  | .declare .. => true
  | _ => false

def isBranch : Stmt → Bool
  | .branch .. => true
  | _ => false

end Stmt
end ColorLowering
