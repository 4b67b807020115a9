import ColorLowering.Initializer
import ColorLowering.Module.Emission

/-!
# Statements

Every statement is written on lines of its own. A branch that is one statement other than a
declaration goes without braces, and a conditional that is all of an `else` part continues the chain
as `else if`. The body of a loop is always in braces.
-/
namespace ColorLowering.Emission

def localVariable (symbol : SymbolId) (init : Option Expr) : Emission Unit := do
  let ctx ← read
  let s := ctx.program.symbol symbol
  let name := Text.unqualified s.name
  let declaration := ctx.target.declare name s.ty (.object !s.isWritable)
  match init, declaration.strategy with
  | none, _ => line (declaration.text ++ ";")
  | some _, none => throw (.unresolvedStrategy name)
  | some init, some strategy =>
    match ← render (Rendering.initializer strategy s.ty init name) with
    | .inline text => line (declaration.text ++ text)
    | .deferred statements => do
      line (declaration.text ++ ";")
      braced (statements.forM line)

/-- Lays out the statements of a branch, which `content` emits. -/
def branch (statements : List Stmt) (content : Emission Unit) : Emission Unit :=
  match statements with
  | [s] => if s.isDeclaration then braced content else indented content
  | _ => braced content

def continuesChain : List Stmt → Bool
  | [s] => s.isBranch
  | _ => false

mutual
/-- A conditional begins with `keyword`; `returnTy` is the type that the function returns. -/
def statement (returnTy : Ty) (keyword : String) : Stmt → Emission Unit
  | .declare symbol init => localVariable symbol init
  | .assign target value => do
    let t ← render target.render
    let v ← render (value.renderAs target.ty)
    line (assignment t v)
  | .eval e => do line ((← render e.render) ++ ";")
  | .branch cond thenBody elseBody => do
    let c ← render (cond.renderAs (.scalar .bool))
    line (keyword ++ " " ++ parenthesized c)
    branch thenBody (statements returnTy "if" thenBody)
    if elseBody.isEmpty then pure ()
    else if continuesChain elseBody then statements returnTy "else if" elseBody
    else do
      line "else"
      branch elseBody (statements returnTy "if" elseBody)
  | .loop cond body => do
    let c ← render (cond.renderAs (.scalar .bool))
    line ("while " ++ parenthesized c)
    braced (statements returnTy "if" body)
  | .ret none => line "return;"
  | .ret (some value) => do line ("return " ++ (← render (value.renderAs returnTy)) ++ ";")
  | .unresolved => throw .unresolved

def statements (returnTy : Ty) (keyword : String) : List Stmt → Emission Unit
  | [] => pure ()
  | s :: rest => do
    statement returnTy keyword s
    statements returnTy keyword rest
end

end ColorLowering.Emission
