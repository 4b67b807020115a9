import ColorLowering.Target
import ColorLowering.Text.Identifier
import ColorLowering.Ty.Basic

/-!
# How types are spelled

Short vectors of floats or ints and square matrices of floats are native types of the vector
library. Other arrays of floats or ints are raw arrays, whose size follows the declared name, and
the rest are containers. A raw array cannot be an element of a container, so inside one it is a
container too; every place but a declaration uses that form.
-/
namespace ColorLowering

inductive NativeShape where
  | vector (arity : Nat)
  | matrix (order : Nat)
  deriving DecidableEq

inductive ArrayForm where
  | native (spelling : String) (shape : NativeShape)
  | raw (scalar : String) (size : Nat)
  | container (elem : Ty)

/-- How an object of a type takes its first value. -/
inductive Strategy where
  | assign | construct | deferred
  deriving DecidableEq

inductive Shape where
  | direct | constructible | aggregate
  deriving DecidableEq

/-- A raw array is spelled around the declared name. -/
structure Spelling where
  base : String
  suffix : String
  deriving DecidableEq

namespace Target

def floatVector (t : Target) (arity : Nat) : String :=
  t.vectorNamespace ++ "::V" ++ toString arity ++ t.precision.nativeSuffix

def intVector (t : Target) (arity : Nat) : String :=
  t.vectorNamespace ++ "::V" ++ toString arity ++ "i"

def matrix (t : Target) (order : Nat) : String :=
  t.vectorNamespace ++ "::M" ++ toString order ++ toString order ++ t.precision.nativeSuffix

def flatArrayForm (vector scalar : String) (elem : Ty) (size : Nat) (inContainer : Bool) :
    ArrayForm :=
  if 2 ≤ size ∧ size ≤ 4 then .native vector (.vector size)
  else if size = 0 ∨ inContainer then .container elem
  else .raw scalar size

def arrayForm (t : Target) (elem : Ty) (size : Nat) (inContainer : Bool) : ArrayForm :=
  match elem with
  | .scalar .float => flatArrayForm (t.floatVector size) t.scalarType elem size inContainer
  | .scalar .int => flatArrayForm (t.intVector size) "int" elem size inContainer
  | .array (.scalar .float) inner =>
    if inner = size ∧ (size = 3 ∨ size = 4) then .native (t.matrix size) (.matrix size)
    else .container elem
  | _ => .container elem

def arrayForm? (t : Target) (ty : Ty) (inContainer : Bool) : Option ArrayForm :=
  match ty with
  | .array elem size => some (t.arrayForm elem size inContainer)
  | _ => none

def nativeSpelling? (t : Target) (ty : Ty) : Option String :=
  match t.arrayForm? ty false with
  | some (.native spelling _) => some spelling
  | _ => none

def isNative (t : Target) (ty : Ty) : Bool := (t.nativeSpelling? ty).isSome

def scalarSpelling (t : Target) : Scalar → String
  | .bool => "bool"
  | .int => "int"
  | .uint => "unsigned int"
  | .half => "half"
  | .float => t.scalarType

def spell (t : Target) : Ty → Bool → Spelling
  | .void, _ => ⟨"void", ""⟩
  | .scalar s, _ => ⟨t.scalarSpelling s, ""⟩
  | .string, _ => ⟨"std::string", ""⟩
  | .struct name _, _ => ⟨Text.unqualified name, ""⟩
  | .array elem size, inContainer =>
    match t.arrayForm elem size inContainer with
    | .native spelling _ => ⟨spelling, ""⟩
    | .raw scalar size => ⟨scalar, "[" ++ toString size ++ "]"⟩
    | .container _ => ⟨"std::vector< " ++ (t.spell elem true).base ++ " >", ""⟩

/-- The spelling of a type away from declarations. -/
def spelling (t : Target) (ty : Ty) : String := (t.spell ty true).base

def shape (t : Target) : Ty → Shape
  | .string => .constructible
  | .struct .. => .aggregate
  | .array elem size =>
    match t.arrayForm elem size false with
    | .native .. => .constructible
    | .raw .. => .direct
    | .container _ => .aggregate
  | _ => .direct

def strategyOf (t : Target) : Shape → Strategy
  | .direct => .assign
  | .constructible => .construct
  | .aggregate => if t.isModern then .assign else .deferred

def strategy? (t : Target) (ty : Ty) : Option Strategy :=
  if ty.isVoid then none else some (t.strategyOf (t.shape ty))

end Target
end ColorLowering
