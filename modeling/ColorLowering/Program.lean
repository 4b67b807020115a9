import ColorLowering.Stmt

/-!
# Programs

A program is a list of modules over one list of symbols. Modules are lowered in order, and a module
may refer to the symbols of every other.
-/
namespace ColorLowering

structure Constant where
  symbol : SymbolId
  init : Option Expr

structure Function where
  symbol : SymbolId
  body : List Stmt

structure Module where
  name : String
  file : String
  structs : List Ty
  constants : List Constant
  functions : List Function

structure Program where
  symbols : Array Symbol
  modules : Array Module

namespace Program

def anonymous : Symbol := ⟨"", none, .var .void false⟩

/-- An identity that was never given out stands for a nameless built-in. -/
def symbol (p : Program) (id : SymbolId) : Symbol := p.symbols.getD id.index anonymous

def module (p : Program) (id : ModuleId) : Module :=
  p.modules.getD id.index ⟨"", "", [], [], []⟩

def moduleIds (p : Program) : List ModuleId := (List.range p.modules.size).map ModuleId.mk

end Program
end ColorLowering
