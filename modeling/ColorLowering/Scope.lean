import ColorLowering.Classification
import ColorLowering.Program
import ColorLowering.Text.Identifier

/-!
# Names in scope

What is known of the symbols lowered so far decides how a reference is written. A literal constant
is its literal text everywhere. A function or a declared global is a bare name in its own module and
takes the namespace of its module elsewhere, and also at home while the text may be pasted into
another module.
-/
namespace ColorLowering
namespace Program

def namespaceOf (p : Program) (m : ModuleId) : String := Text.clean (p.module m).name

/-- A function is an entry routine when it is called `main` or as its module is. -/
def isEntry (p : Program) (s : Symbol) : Bool :=
  match s.module with
  | some m => Text.unqualified s.name = "main" || Text.unqualified s.name = (p.module m).name
  | none => false

/-- `main` is emitted under the name of its module. -/
def functionName (p : Program) (s : Symbol) : String :=
  match s.module with
  | some m => if Text.unqualified s.name = "main" then p.namespaceOf m else Text.unqualified s.name
  | none => Text.unqualified s.name

end Program

/-- The namespace of the built-in functions. -/
def builtinNamespace : String := "_ctlcc_"

structure Scope where
  program : Program
  target : Target
  module : ModuleId
  known : Classification
  /-- Names of the module itself are qualified too, for text that may be pasted elsewhere. -/
  qualifyAll : Bool

namespace Scope

/-- `name` as it is seen from this scope when `owner` declares it. -/
def qualified (s : Scope) (owner : ModuleId) (name : String) : String :=
  if owner = s.module ∧ !s.qualifyAll then name else s.program.namespaceOf owner ++ "::" ++ name

def functionReference (s : Scope) (symbol : Symbol) : String :=
  match symbol.module with
  | some m => s.qualified m (s.program.functionName symbol)
  | none => builtinNamespace ++ "::" ++ s.program.functionName symbol

def variableReference (s : Scope) (id : SymbolId) (symbol : Symbol) : String :=
  let name := Text.unqualified symbol.name
  match symbol.module with
  | some m => if s.known.globals.contains id then s.qualified m name else name
  | none => name

def resolve (s : Scope) (id : SymbolId) : String :=
  match s.known.literals.get? id with
  | some text => text
  | none =>
    let symbol := s.program.symbol id
    if symbol.isFunction then s.functionReference symbol else s.variableReference id symbol

end Scope
end ColorLowering
