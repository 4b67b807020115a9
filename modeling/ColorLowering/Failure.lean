/-!
# Why a module cannot be lowered
-/
namespace ColorLowering

inductive Unsupported where
  | unsizedArray
  | computedCallee
  | legacyTemporary
  deriving DecidableEq

def Unsupported.message : Unsupported → String
  | .unsizedArray => "runtime size of an unsized array"
  | .computedCallee => "call through a computed callee"
  | .legacyTemporary => "aggregate temporaries in the legacy dialect"

inductive Failure where
  | tooManyArguments (function : String) (supplied declared : Nat)
  | missingArgument (param function : String)
  | unsupportedPlaceholder (name : String)
  | unresolvedStrategy (name : String)
  | leafMismatch (target : String) (found needed : Nat)
  | notAFunction (name : String)
  | unsupported (construct : Unsupported)
  /-- A text without end is asked for, that of something that is not there, or one of more leaves
  than a machine word counts. -/
  | unresolved
  deriving DecidableEq

def quotedName (name : String) : String := "`" ++ name ++ "`"

def Failure.message : Failure → String
  | .tooManyArguments function supplied declared =>
    "too many arguments in call to " ++ quotedName function ++ ": " ++ toString supplied ++
      " supplied, " ++ toString declared ++ " declared"
  | .missingArgument param function =>
    "missing argument " ++ quotedName param ++ " in call to " ++ quotedName function ++
      " (no default value)"
  | .unsupportedPlaceholder name =>
    "complex default value " ++ quotedName name ++ " cannot use function-style initialization"
  | .unresolvedStrategy name => "no initialization strategy resolved for " ++ quotedName name
  | .leafMismatch target found needed =>
    "aggregate literal for " ++ quotedName target ++ " has " ++ toString found ++
      " leaves, its type needs " ++ toString needed
  | .notAFunction name => quotedName name ++ " does not name a function"
  | .unsupported construct => "not yet implemented: " ++ construct.message
  | .unresolved => "no such text"

end ColorLowering
