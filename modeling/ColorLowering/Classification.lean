import ColorLowering.Symbol
import ColorLowering.Table
import ColorLowering.Ty.Spelling
import ColorLowering.Value.Basic

/-!
# Classified symbols

A constant of a lowered module is a literal, a declared global or a placeholder. The tables hold
what later references, later constants and later modules need to know of each.
-/
namespace ColorLowering

/-- How the constants and functions met so far are to be lowered. -/
structure Classification where
  /-- Constants replaced by literal text at every reference. -/
  literals : Table SymbolId String
  /-- The values of literal constants, where folding found one. -/
  folded : Table SymbolId Value
  /-- Constants with a declaration. -/
  globals : Table SymbolId Unit
  strategies : Table SymbolId Strategy
  /-- Functions called by the initializer of a constant of their module. -/
  calledInInit : Table SymbolId Unit
  /-- Constants whose initializer calls a function of their module. -/
  needsModuleInit : Table SymbolId Unit
  /-- The texts of placeholders. -/
  defaults : Table SymbolId String

namespace Classification

def empty : Classification := ⟨.empty, .empty, .empty, .empty, .empty, .empty, .empty⟩

def addLiteral (k : Classification) (symbol : SymbolId) (text : String) (value : Option Value) :
    Classification :=
  { k with
    literals := k.literals.insert symbol text
    folded := match value with
      | some v => k.folded.insert symbol v
      | none => k.folded }

def addGlobal (k : Classification) (symbol : SymbolId) (strategy : Strategy) : Classification :=
  { k with
    globals := k.globals.insert symbol ()
    strategies := k.strategies.insert symbol strategy }

def addDefault (k : Classification) (symbol : SymbolId) (text : String) : Classification :=
  { k with defaults := k.defaults.insert symbol text }

def addCallees (k : Classification) (callees : List SymbolId) : Classification :=
  { k with calledInInit := callees.foldl (fun t symbol => t.insert symbol ()) k.calledInInit }

def addNeedsModuleInit (k : Classification) (symbol : SymbolId) : Classification :=
  { k with needsModuleInit := k.needsModuleInit.insert symbol () }

def isDeferred (k : Classification) (symbol : SymbolId) : Bool :=
  k.strategies.get? symbol = some .deferred

end Classification
end ColorLowering
