import ColorLowering.Symbol
import ColorLowering.Ty.Spelling

/-!
# Declarations and conversions

Raw arrays are never references. Structs, native types and containers are references as parameters,
scalars and strings only where they are written. An object that statements fill in after its
declaration cannot be `const`, so `const` is left off structs and containers in the legacy dialect.
-/
namespace ColorLowering

/-- What is wanted of a declaration; the type decides what of it is spelled. -/
structure DeclMode where
  isConst : Bool
  isInput : Bool
  isWritable : Bool
  deriving DecidableEq

namespace DeclMode

def plain : DeclMode := ⟨false, false, false⟩

def object (isConst : Bool) : DeclMode := ⟨isConst, false, false⟩

def param (access : Access) : DeclMode := ⟨access = .read, true, access.isOutput⟩

end DeclMode

structure Declaration where
  text : String
  strategy : Option Strategy
  deriving DecidableEq

/-- `content` between parentheses, with a space on either side. -/
def parenthesized (content : String) : String := "( " ++ content ++ " )"

def commaSeparated (items : List String) : String := ", ".intercalate items

namespace Target

/-- Whether the declaration is `const` and whether it is a reference. -/
def qualifiers (t : Target) (ty : Ty) (mode : DeclMode) : Bool × Bool :=
  match ty with
  | .void => (false, false)
  | .struct .. => (mode.isConst && t.isModern, mode.isInput || mode.isWritable)
  | .array elem size =>
    match t.arrayForm elem size false with
    | .raw .. => (mode.isConst, false)
    | .native .. => (mode.isConst, mode.isInput || mode.isWritable)
    | .container _ =>
      (mode.isConst && t.strategy? ty = some .assign, mode.isInput || mode.isWritable)
  | _ => (mode.isConst, mode.isWritable)

def declare (t : Target) (name : String) (ty : Ty) (mode : DeclMode) : Declaration :=
  let spelled := t.spell ty false
  let (isConst, byRef) := t.qualifiers ty mode
  let named := if name.isEmpty then "" else (if byRef then "" else " ") ++ Text.unqualified name
  ⟨(if isConst then "const " else "") ++ spelled.base ++ (if byRef then " &" else "") ++ named ++
    spelled.suffix, t.strategy? ty⟩

/-- What is written before the parenthesized operand of a conversion. -/
def conversion (t : Target) : Scalar → String
  | .half => "half"
  | s => "static_cast<" ++ t.scalarSpelling s ++ ">"

/-- Only a change between two different scalar types is written. -/
def cast (t : Target) (wanted given : Ty) (text : String) : String :=
  match wanted.scalar?, given.scalar? with
  | some w, some g => if w = g then text else t.conversion w ++ parenthesized text
  | _, _ => text

end Target
end ColorLowering
