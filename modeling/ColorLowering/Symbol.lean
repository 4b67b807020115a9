import ColorLowering.Ty.Basic

/-!
# Symbols

A symbol is a variable or a function, owned by a module or built in. A variable whose name holds the
placeholder mark stands for the default value of some parameter and is never declared.
-/
namespace ColorLowering

structure ModuleId where
  index : Nat
  deriving DecidableEq

structure SymbolId where
  index : Nat
  deriving DecidableEq

inductive Access where
  | read | write | readWrite
  deriving DecidableEq

def Access.isOutput : Access → Bool
  | .read => false
  | _ => true

structure Param where
  name : String
  ty : Ty
  access : Access

inductive SymbolKind where
  | var (ty : Ty) (writable : Bool)
  | fn (params : List Param) (ret : Ty)

structure Symbol where
  name : String
  module : Option ModuleId
  kind : SymbolKind

def isPlaceholderName (name : String) : Bool := name.toList.contains '$'

namespace Symbol

/-- The type of a function is the type it returns. -/
def ty (s : Symbol) : Ty :=
  match s.kind with
  | .var ty _ => ty
  | .fn _ ret => ret

def isFunction (s : Symbol) : Bool :=
  match s.kind with
  | .var .. => false
  | .fn .. => true

def isWritable (s : Symbol) : Bool :=
  match s.kind with
  | .var _ writable => writable
  | .fn .. => false

def isPlaceholder (s : Symbol) : Bool :=
  !s.isFunction && isPlaceholderName s.name

end Symbol
end ColorLowering
