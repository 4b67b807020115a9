import ColorLowering.Expr.Mentions
import ColorLowering.Expr.Value
import ColorLowering.Module.Emission

/-!
# A survey of the constants of a module

Before anything is written, each constant with an initializer is looked at in order. One that is
built from literals alone becomes literal text at every reference and is never declared; its value
is folded where that is possible. Of any other, the functions of the module that its initializer
calls are noted, since they have to be declared before the constants.
-/
namespace ColorLowering
namespace ModuleContext

def isHome (ctx : ModuleContext) (symbol : SymbolId) : Bool :=
  (ctx.program.symbol symbol).module = some ctx.module

/-- The functions of the module that an initializer calls. -/
def homeCallees (ctx : ModuleContext) (init : Expr) : List SymbolId :=
  init.callees.filter ctx.isHome

/-- Whether an initializer reads a constant of the module that is filled in by statements. -/
def readsDeferred (ctx : ModuleContext) (known : Classification) (init : Expr) : Bool :=
  init.names.any fun symbol => ctx.isHome symbol && known.isDeferred symbol

end ModuleContext

namespace Emission

def surveyLiteral (symbol : SymbolId) (init : Expr) : Emission Unit := do
  let ctx ← read
  let k ← known
  let ty := (ctx.program.symbol symbol).ty
  let p := ctx.target.precision
  match (init.value? p k.folded).bind (·.convertTo? p ty) with
  | some value => setKnown (k.addLiteral symbol value.text (some value))
  | none => setKnown (k.addLiteral symbol (← render (init.renderAs ty)) none)

def surveyCallees (symbol : SymbolId) (init : Expr) : Emission Unit := do
  let ctx ← read
  let k := (← known).addCallees (ctx.homeCallees init)
  if (ctx.homeCallees init).isEmpty || (ctx.program.symbol symbol).isPlaceholder then setKnown k
  else setKnown (k.addNeedsModuleInit symbol)

def surveyConstant (c : Constant) : Emission Unit := do
  match c.init with
  | none => pure ()
  | some init =>
    if !init.isAggregate && init.isLiteral (← known).literals then surveyLiteral c.symbol init
    else surveyCallees c.symbol init

def surveyConstants : List Constant → Emission Unit
  | [] => pure ()
  | c :: rest => do
    surveyConstant c
    surveyConstants rest

end Emission
end ColorLowering
