import ColorLowering.Expr.Rendering
import ColorLowering.Proofs.Reading.Lists
import ColorLowering.Proofs.Reading.Values

/-!
# The tree of an expression

Every node of an expression is one node of its tree, over the trees of its operands in their order,
and a conversion is one node around what it converts. Where an expression gives way to a text that
is known, as the name of a literal and an omitted argument do, its tree is the one that this text
reads as. The tree depends on the scope and on the texts of defaults as the text of the expression
does.
-/
namespace ColorLowering

open Cpp

namespace Rendering

def treeOf (text : String) : Rendering Tree :=
  match Cpp.read text with
  | some tree => pure tree
  | none => throw .unresolved

def castTree (wanted given : Ty) (tree : Tree) : Rendering Tree := do
  return (← read).target.castTree wanted given tree

def nameTree (symbol : SymbolId) : Rendering Tree := do
  let scope ← read
  match scope.known.literals.get? symbol with
  | some text => treeOf text
  | none => return .ofName (scope.resolve symbol)

def temporaryTree (ty : Ty) (spelling : String) (isNative : Bool) (leaves : List Tree) :
    Rendering Tree := do
  let head ← treeOf spelling
  if isNative then return .apply head leaves
  else return ((← read).target.listTree ty leaves).headed head

end Rendering

open Rendering in
mutual
def Expr.tree : Expr → Rendering Tree
  | .literal _ value => pure value.tree
  | .name _ symbol => nameTree symbol
  | .binary _ op operandTy left right => do
    let l ← castTree operandTy left.ty (← left.tree)
    let r ← castTree operandTy right.ty (← right.tree)
    return .binary op l r
  | .unary ty op operand => do return .unary op (← castTree ty operand.ty (← operand.tree))
  | .index _ array position => do
    let a ← array.tree
    let i ← castTree (.scalar .int) position.ty (← position.tree)
    return .index a i
  | .member _ object field => do return .member (← object.tree) field.toList
  | .call _ (.function symbol slots) args => do
    let function ← resolved symbol
    let supplied ← Expr.trees (slots.map Slot.ty) args
    let omitted ← Expr.renderDefaults function args.length slots
    return .apply (.ofName function) (supplied ++ (← omitted.mapM treeOf))
  | .call _ (.variable _) _ => throw .unresolved
  | .call _ .computed _ => throw .unresolved
  | .aggregate ty leaves => do
    let (spelling, isNative) ← temporary ty
    temporaryTree ty spelling isNative (← Expr.trees ty.leaves leaves)
  | .size _ array => do return .literal (← arraySizeText array.ty).toList
  | .unresolved _ => throw .unresolved

def Expr.trees : List Ty → List Expr → Rendering (List Tree)
  | ty :: tys, e :: es => do
    let first ← castTree ty e.ty (← e.tree)
    return first :: (← Expr.trees tys es)
  | _, _ => pure []
end

end ColorLowering
