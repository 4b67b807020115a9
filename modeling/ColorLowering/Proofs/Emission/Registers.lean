import ColorLowering.Module.Text

/-!
# Lowering with registers

Three things are set while a module is lowered, for the steps that come after: whether the names of
the module itself are qualified, what the function in hand returns, and the statements that are left
for the module initializer. An emitter is told each of them by the one that calls it. A lowering
keeps them in registers that any of its steps may set, and writes the same.
-/
namespace ColorLowering

structure Registers where
  /-- Whether the names of the module itself are qualified. -/
  qualifyAll : Bool
  /-- What the function in hand returns. -/
  returnTy : Ty
  /-- What is left for the module initializer so far. -/
  deferred : List String

def Registers.defer (r : Registers) (statements : List String) : Registers :=
  { r with deferred := r.deferred ++ statements }

structure Progress where
  emission : EmissionState
  registers : Registers

abbrev Lowering := ReaderT ModuleContext (ExceptT Failure (StateM Progress))

namespace Lowering

variable {α β : Type}

theorem bind_apply (x : Lowering α) (f : α → Lowering β) (ctx : ModuleContext) (p : Progress) :
    (x >>= f) ctx p = match x ctx p with
      | (.ok a, p') => f a ctx p'
      | (.error e, p') => (.error e, p') := by
  simp only [bind, ReaderT.bind, ExceptT.bind, ExceptT.mk, StateT.bind]
  rcases x ctx p with ⟨_ | _, _⟩ <;> rfl

def emit (x : Emission α) : Lowering α := fun ctx => ExceptT.mk fun p =>
  let run := x ctx p.emission
  (run.1, { p with emission := run.2 })

def registers : Lowering Registers := do return (← get).registers

def setQualifyAll (qualifyAll : Bool) : Lowering Unit :=
  modify fun p => { p with registers := { p.registers with qualifyAll } }

def setReturnTy (returnTy : Ty) : Lowering Unit :=
  modify fun p => { p with registers := { p.registers with returnTy } }

def setDeferred (deferred : List String) : Lowering Unit :=
  modify fun p => { p with registers := { p.registers with deferred } }

/-- The outcome as a value, so that what follows is done on failure too. -/
def attempt (x : Lowering α) : Lowering (Except Failure α) := fun ctx => ExceptT.mk fun p =>
  let run := x ctx p
  (.ok run.1, run.2)

def rendered (r : Rendering α) : Lowering α := do
  emit (Emission.rendering (← registers).qualifyAll r)

def line (text : String) : Lowering Unit := emit (Emission.line text)

def braced (content : Lowering Unit) : Lowering Unit := do
  emit (Emission.writeBody Text.Writer.openBrace)
  content
  emit (Emission.writeBody (·.closeBraceWith ""))

def indented (content : Lowering Unit) : Lowering Unit := do
  emit (Emission.writeBody Text.Writer.indent)
  content
  emit (Emission.writeBody Text.Writer.dedent)

/-- A text that any module may paste. Whether names are qualified is put back in any case. -/
def placeholderText (name : String) (strategy : Strategy) (ty : Ty) (init : Expr) :
    Lowering String := do
  let saved := (← registers).qualifyAll
  setQualifyAll true
  let text ← attempt (rendered (Rendering.placeholder name strategy ty init))
  setQualifyAll saved
  match text with
  | .ok text => return text
  | .error e => throw e

theorem emit_apply (x : Emission α) (ctx : ModuleContext) (p : Progress) :
    emit x ctx p = ((x ctx p.emission).1, { p with emission := (x ctx p.emission).2 }) := rfl

theorem registers_apply (ctx : ModuleContext) (p : Progress) :
    registers ctx p = (.ok p.registers, p) := rfl

theorem setQualifyAll_apply (qualifyAll : Bool) (ctx : ModuleContext) (p : Progress) :
    setQualifyAll qualifyAll ctx p =
      (.ok (), { p with registers := { p.registers with qualifyAll } }) := rfl

theorem attempt_apply (x : Lowering α) (ctx : ModuleContext) (p : Progress) :
    attempt x ctx p = (.ok (x ctx p).1, (x ctx p).2) := rfl

theorem rendered_apply (r : Rendering α) (ctx : ModuleContext) (p : Progress) :
    rendered r ctx p = emit (Emission.rendering p.registers.qualifyAll r) ctx p := rfl

/-- The text of a placeholder is rendered with all names qualified. Afterwards the registers are
what they were, also where there is no text. -/
theorem placeholderText_eq (name : String) (strategy : Strategy) (ty : Ty) (init : Expr) :
    placeholderText name strategy ty init =
      emit (Emission.renderPortable (Rendering.placeholder name strategy ty init)) := by
  funext ctx p
  simp only [placeholderText, bind_apply, registers_apply, setQualifyAll_apply, attempt_apply,
    rendered_apply, emit_apply, Emission.renderPortable]
  cases (Emission.rendering true (Rendering.placeholder name strategy ty init) ctx
    p.emission).1 with
  | ok text => rfl
  | error e => rfl

def localVariable (symbol : SymbolId) (init : Option Expr) : Lowering Unit := do
  let ctx ← read
  let s := ctx.program.symbol symbol
  let name := Text.unqualified s.name
  let declaration := ctx.target.declare name s.ty (.object !s.isWritable)
  match init, declaration.strategy with
  | none, _ => line (declaration.text ++ ";")
  | some _, none => throw (.unresolvedStrategy name)
  | some init, some strategy =>
    match ← rendered (Rendering.initializer strategy s.ty init name) with
    | .inline text => line (declaration.text ++ text)
    | .deferred statements => do
      line (declaration.text ++ ";")
      braced (emit (statements.forM Emission.line))

def branch (statements : List Stmt) (content : Lowering Unit) : Lowering Unit :=
  match statements with
  | [s] => if s.isDeclaration then braced content else indented content
  | _ => braced content

mutual
def statement (keyword : String) : Stmt → Lowering Unit
  | .declare symbol init => localVariable symbol init
  | .assign target value => do
    let t ← rendered target.render
    let v ← rendered (value.renderAs target.ty)
    line (assignment t v)
  | .eval e => do line ((← rendered e.render) ++ ";")
  | .branch cond thenBody elseBody => do
    let c ← rendered (cond.renderAs (.scalar .bool))
    line (keyword ++ " " ++ parenthesized c)
    branch thenBody (statements "if" thenBody)
    if elseBody.isEmpty then pure ()
    else if Emission.continuesChain elseBody then statements "else if" elseBody
    else do
      line "else"
      branch elseBody (statements "if" elseBody)
  | .loop cond body => do
    let c ← rendered (cond.renderAs (.scalar .bool))
    line ("while " ++ parenthesized c)
    braced (statements "if" body)
  | .ret none => line "return;"
  | .ret (some value) => do
    let returnTy := (← registers).returnTy
    line ("return " ++ (← rendered (value.renderAs returnTy)) ++ ";")
  | .unresolved => throw .unresolved

def statements (keyword : String) : List Stmt → Lowering Unit
  | [] => pure ()
  | s :: rest => do
    statement keyword s
    statements keyword rest
end

def function (f : Function) : Lowering Unit := do
  let ctx ← read
  let s := ctx.program.symbol f.symbol
  let (params, ret) ← emit (Emission.signature s)
  let name := ctx.program.functionName s
  let returned := ctx.target.spelling ret
  let named := name ++ parameterList ctx.target params
  let isEntry := ctx.program.isEntry s
  if isEntry then emit (Emission.publicDeclaration name (returned ++ " " ++ named) f.symbol)
  let declaredAhead := (← emit Emission.known).calledInInit.contains f.symbol
  line (storageText isEntry declaredAhead ++ returned ++ "\n" ++ named)
  braced do
    setReturnTy ret
    statements "if" f.body
  emit Emission.blank

def declareGlobal (strategy : Strategy) (c : LoweredConstant) : Lowering Unit := do
  emit (Emission.setKnown ((← emit Emission.known).addGlobal c.symbol strategy))
  line c.line

def declaredConstant (c : Constant) (name : String) (ty : Ty) (strategy : Strategy)
    (declaration : String) : Lowering Unit := do
  match c.init with
  | none => declareGlobal strategy ⟨c.symbol, declaration, none⟩
  | some init =>
    match ← rendered (Rendering.initializer strategy ty init name) with
    | .inline text => declareGlobal strategy ⟨c.symbol, declaration, some (.inline text)⟩
    | .deferred statements => do
      let plain := ((← read).target.declare name ty (.object false)).text
      declareGlobal .deferred ⟨c.symbol, plain, some (.deferred statements)⟩
      setDeferred ((← registers).deferred ++ statements)

def placeholderConstant (c : Constant) (name : String) (ty : Ty) (strategy : Strategy) :
    Lowering Unit := do
  match c.init with
  | none => pure ()
  | some init => do
    let text ← placeholderText name strategy ty init
    emit (Emission.setKnown ((← emit Emission.known).addDefault c.symbol text))

def constant (c : Constant) : Lowering Unit := do
  let ctx ← read
  let k ← emit Emission.known
  if k.literals.contains c.symbol then return
  let s := ctx.program.symbol c.symbol
  let name := Text.unqualified s.name
  let forced := Emission.isForced ctx k c
  let declaration := ctx.target.declare name s.ty (.object (!s.isWritable && !forced))
  match if forced then some .deferred else declaration.strategy with
  | none => throw (.unresolvedStrategy name)
  | some strategy =>
    if s.isPlaceholder then placeholderConstant c name s.ty strategy
    else declaredConstant c name s.ty strategy declaration.text

def constantList : List Constant → Lowering Unit
  | [] => pure ()
  | c :: rest => do
    constant c
    constantList rest

def moduleInitializer : Lowering Unit := do
  let statements := (← registers).deferred
  setDeferred []
  emit (Emission.moduleInitializer statements)

def module (m : Module) : Lowering Unit := do
  emit (Emission.heading m)
  constantList m.constants
  if m.constants.isEmpty then pure () else emit Emission.blank
  moduleInitializer
  m.functions.forM function
  line ("\x7d // namespace " ++ (← read).namespaceText)

end Lowering
end ColorLowering
