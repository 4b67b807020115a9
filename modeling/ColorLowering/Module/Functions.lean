import ColorLowering.Module.Statements

/-!
# Functions

A function that the initializer of a constant calls is declared before the constants. Entry routines
are visible outside and are declared in the header as well; every other function is static, and
inline too unless it was declared ahead.
-/
namespace ColorLowering

def parameterList (t : Target) (params : List Param) : String :=
  if params.isEmpty then "()"
  else parenthesized (commaSeparated
    (params.map fun p => (t.declare p.name p.ty (.param p.access)).text))

def storageText (isEntry declaredAhead : Bool) : String :=
  if isEntry then "" else if declaredAhead then "static " else "static inline "

namespace Emission

/-- The parameters and the return type of a function. -/
def signature (s : Symbol) : Emission (List Param × Ty) :=
  match s.kind with
  | .fn params ret => pure (params, ret)
  | .var .. => throw (.notAFunction s.name)

def forwardDeclaration (f : Function) : Emission Unit := do
  let ctx ← read
  let s := ctx.program.symbol f.symbol
  let (params, ret) ← signature s
  let storage := if ctx.program.isEntry s then "" else "static "
  line (storage ++ ctx.target.spelling ret ++ " " ++ ctx.program.functionName s ++
    parameterList ctx.target params ++ ";")

def forwardDeclarations (functions : List Function) : Emission Unit := do
  let k ← known
  let called := functions.filter fun f => k.calledInInit.contains f.symbol
  called.forM forwardDeclaration
  if called.isEmpty then pure () else blank

def publicDeclaration (name head : String) (symbol : SymbolId) : Emission Unit := do
  let ns := (← read).namespaceText
  writeHeader (·.line ("namespace " ++ ns ++ " \x7b\n" ++ head ++ ";\n\x7d // namespace " ++ ns))
  addEntry ⟨name, ns ++ "::" ++ name, symbol⟩

def functionDefinition (head : String) (ret : Ty) (body : List Stmt) : Emission Unit := do
  line head
  braced (statements ret "if" body)
  blank

def function (f : Function) : Emission Unit := do
  let ctx ← read
  let s := ctx.program.symbol f.symbol
  let (params, ret) ← signature s
  let name := ctx.program.functionName s
  let returned := ctx.target.spelling ret
  let named := name ++ parameterList ctx.target params
  let isEntry := ctx.program.isEntry s
  if isEntry then publicDeclaration name (returned ++ " " ++ named) f.symbol
  let declaredAhead := (← known).calledInInit.contains f.symbol
  functionDefinition (storageText isEntry declaredAhead ++ returned ++ "\n" ++ named) ret f.body

end Emission
end ColorLowering
