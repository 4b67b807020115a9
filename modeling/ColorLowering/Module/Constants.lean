import ColorLowering.Initializer
import ColorLowering.Module.Survey

/-!
# Constants

A literal constant has no declaration, and neither has a placeholder, whose text is kept for the
calls that use it. Every other constant is declared in order. Where the legacy dialect has no
initializer for its type, or the initializer calls a function of the module or reads a constant that
is filled in later, its value comes from statements that the module initializer runs.
-/
namespace ColorLowering

/-- A declared constant: its declaration up to the initializer, and its initializer. -/
structure LoweredConstant where
  symbol : SymbolId
  declaration : String
  init : Option Initializer

namespace LoweredConstant

def line (c : LoweredConstant) : String :=
  match c.init with
  | some (.inline text) => c.declaration ++ text
  | _ => c.declaration ++ ";"

/-- What is left for the module initializer. -/
def statements (c : LoweredConstant) : List String :=
  match c.init with
  | some (.deferred statements) => statements
  | _ => []

end LoweredConstant

namespace Emission

/-- Whether a constant has to wait for the module initializer whatever its type is. -/
def isForced (ctx : ModuleContext) (known : Classification) (c : Constant) : Bool :=
  match c.init with
  | none => false
  | some init =>
    !ctx.target.isModern &&
      ((!(ctx.program.symbol c.symbol).isPlaceholder && known.needsModuleInit.contains c.symbol) ||
        ctx.readsDeferred known init)

def declareGlobal (strategy : Strategy) (c : LoweredConstant) : Emission LoweredConstant := do
  setKnown ((← known).addGlobal c.symbol strategy)
  line c.line
  return c

def declaredConstant (c : Constant) (name : String) (ty : Ty) (strategy : Strategy)
    (declaration : String) : Emission LoweredConstant := do
  match c.init with
  | none => declareGlobal strategy ⟨c.symbol, declaration, none⟩
  | some init =>
    match ← render (Rendering.initializer strategy ty init name) with
    | .inline text => declareGlobal strategy ⟨c.symbol, declaration, some (.inline text)⟩
    | .deferred statements => do
      let plain := ((← read).target.declare name ty (.object false)).text
      declareGlobal .deferred ⟨c.symbol, plain, some (.deferred statements)⟩

def placeholderConstant (c : Constant) (name : String) (ty : Ty) (strategy : Strategy) :
    Emission Unit := do
  match c.init with
  | none => pure ()
  | some init => do
    let text ← renderPortable (Rendering.placeholder name strategy ty init)
    setKnown ((← known).addDefault c.symbol text)

/-- What the constant leaves in the text, if it is declared at all. -/
def constant (c : Constant) : Emission (Option LoweredConstant) := do
  let ctx ← read
  let k ← known
  if k.literals.contains c.symbol then return none
  let s := ctx.program.symbol c.symbol
  let name := Text.unqualified s.name
  let forced := isForced ctx k c
  let declaration := ctx.target.declare name s.ty (.object (!s.isWritable && !forced))
  match if forced then some .deferred else declaration.strategy with
  | none => throw (.unresolvedStrategy name)
  | some strategy =>
    if s.isPlaceholder then do
      placeholderConstant c name s.ty strategy
      return none
    else return some (← declaredConstant c name s.ty strategy declaration.text)

def constantList : List Constant → Emission (List LoweredConstant)
  | [] => pure []
  | c :: rest => do
    let lowered ← constant c
    return lowered.toList ++ (← constantList rest)

def constants (cs : List Constant) : Emission (List LoweredConstant) := do
  let lowered ← constantList cs
  if cs.isEmpty then pure () else blank
  return lowered

/-- One static object whose constructor runs the statements. -/
def moduleInitializer (statements : List String) : Emission Unit := do
  if statements.isEmpty then pure ()
  else do
    let ns := (← read).namespaceText
    line ("struct __ctlcc_InitVals_" ++ ns)
    bracedWith ";" do
      line ("__ctlcc_InitVals_" ++ ns ++ "( void )")
      braced (statements.forM line)
    line ("static __ctlcc_InitVals_" ++ ns ++ " __ctlcc_GlobalInitializer_" ++ ns ++ ";")
    blank

end Emission
end ColorLowering
