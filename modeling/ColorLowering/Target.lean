/-!
# Targets

The dialect says whether the target accepts initializer lists for structs and containers; the
precision is that of the floating point scalar.
-/
namespace ColorLowering

inductive Dialect where
  | modern | legacy
  deriving DecidableEq

inductive Precision where
  | single | double
  deriving DecidableEq

namespace Precision

def scalarType : Precision → String
  | single => "float"
  | double => "double"

/-- What a C mathematics function appends to its name for this precision. -/
def mathSuffix : Precision → String
  | single => "f"
  | double => ""

/-- What the vector and matrix types append to their names for this precision. -/
def nativeSuffix : Precision → String
  | single => "f"
  | double => "d"

end Precision

structure Target where
  dialect : Dialect
  precision : Precision
  vectorNamespace : String

namespace Target

def standard : Target := ⟨.modern, .single, "Imath"⟩

def isModern (t : Target) : Bool := t.dialect = .modern

def scalarType (t : Target) : String := t.precision.scalarType

end Target
end ColorLowering
