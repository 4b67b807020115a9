import ColorLowering.Expr
import ColorLowering.Store.Types

/-!
# The program store

A checked program as it is handed over: symbols, expressions, statements and modules in the order of
their allocation, each referring to others by identity. The lists of arguments, leaves and bodies
lie end to end in two side lists; a list is given by where it starts and how long it is. Nothing is
ever changed once it is stored.
-/
namespace ColorLowering

structure StmtId where
  index : Nat
  deriving DecidableEq

instance : ToString ExprId := ⟨fun e => s!"ExprId({e.index})"⟩

/-- A run of a side list. -/
structure Span where
  start : Nat
  length : Nat
  deriving DecidableEq

namespace Span

def isEmpty (r : Span) : Bool := r.length = 0

def read {α : Type} (r : Span) (side : Array α) : List α :=
  (side.extract r.start (r.start + r.length)).toList

end Span

inductive ExprNode where
  | value (v : Value)
  | string (s : NameId)
  | name (symbol : SymbolId)
  | binary (op : BinaryOp) (operandTy : TypeId) (left right : ExprId)
  | unary (op : UnaryOp) (operand : ExprId)
  | index (array position : ExprId)
  | member (object : ExprId) (name : NameId)
  | call (callee : ExprId) (args : Span)
  | aggregate (leaves : Span)
  | size (array : ExprId)

def ExprNode.isLiteral : ExprNode → Bool
  | .value _ => true
  | .string _ => true
  | _ => false

structure ExprEntry where
  node : ExprNode
  ty : TypeId

inductive StmtEntry where
  | declare (symbol : SymbolId) (init : Option ExprId)
  | assign (target value : ExprId)
  | eval (e : ExprId)
  | branch (cond : ExprId) (thenBody elseBody : Span)
  | loop (cond : ExprId) (body : Span)
  | ret (value : Option ExprId)

structure ParamEntry where
  name : NameId
  ty : TypeId
  access : Access
  default : Option ExprId

inductive SymbolShape where
  | var (ty : TypeId) (writable : Bool)
  | fn (params : List ParamEntry) (ret : TypeId)

structure SymbolEntry where
  name : NameId
  module : Option ModuleId
  shape : SymbolShape

namespace SymbolEntry

def isFunction (s : SymbolEntry) : Bool :=
  match s.shape with
  | .var .. => false
  | .fn .. => true

def ty (s : SymbolEntry) : TypeId :=
  match s.shape with
  | .var ty _ => ty
  | .fn _ ret => ret

def isWritable (s : SymbolEntry) : Bool :=
  match s.shape with
  | .var _ writable => writable
  | .fn .. => false

def isPlaceholder (s : SymbolEntry) (names : NameStore) : Bool :=
  !s.isFunction && isPlaceholderName (names.lookup s.name)

end SymbolEntry

structure ModuleEntry where
  name : NameId
  file : String
  structs : List TypeId
  constants : List (SymbolId × Option ExprId)
  functions : List (SymbolId × Span)

structure Store where
  names : NameStore
  types : TypeStore
  symbols : Array SymbolEntry
  exprs : Array ExprEntry
  exprLists : Array ExprId
  stmts : Array StmtEntry
  stmtLists : Array StmtId
  modules : Array ModuleEntry

namespace Store

def empty : Store := ⟨.empty, .empty, #[], #[], #[], #[], #[], #[]⟩

def intern (s : Store) (text : String) : NameId × Store :=
  let (id, names) := s.names.intern text
  (id, { s with names })

def internType (s : Store) (node : TypeNode) : TypeId × Store :=
  let (id, types) := s.types.intern node
  (id, { s with types })

def addSymbol (s : Store) (symbol : SymbolEntry) : SymbolId × Store :=
  (⟨s.symbols.size⟩, { s with symbols := s.symbols.push symbol })

def tryAddSymbol (s : Store) (symbol : SymbolEntry) : Except CapacityError (SymbolId × Store) :=
  if idCapacity ≤ s.symbols.size then .error (.symbols s.symbols.size)
  else .ok (s.addSymbol symbol)

def addExpr (s : Store) (e : ExprEntry) : ExprId × Store :=
  (⟨s.exprs.size⟩, { s with exprs := s.exprs.push e })

def addStmt (s : Store) (stmt : StmtEntry) : StmtId × Store :=
  (⟨s.stmts.size⟩, { s with stmts := s.stmts.push stmt })

def addExprList (s : Store) (ids : List ExprId) : Span × Store :=
  (⟨s.exprLists.size, ids.length⟩, { s with exprLists := s.exprLists ++ ids })

def addStmtList (s : Store) (ids : List StmtId) : Span × Store :=
  (⟨s.stmtLists.size, ids.length⟩, { s with stmtLists := s.stmtLists ++ ids })

/-- A module starts without contents. -/
def addModule (s : Store) (name file : String) : ModuleId × Store :=
  let (name, s) := s.intern name
  (⟨s.modules.size⟩, { s with modules := s.modules.push ⟨name, file, [], [], []⟩ })

def fillModule (s : Store) (id : ModuleId) (structs : List TypeId)
    (constants : List (SymbolId × Option ExprId)) (functions : List (SymbolId × Span)) : Store :=
  { s with modules := s.modules.modify id.index fun m => { m with structs, constants, functions } }

def moduleIds (s : Store) : List ModuleId := (List.range s.modules.size).map ModuleId.mk

def ty? (s : Store) (id : TypeId) : Option Ty := s.types.ty? s.names id

end Store
end ColorLowering
