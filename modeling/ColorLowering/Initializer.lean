import ColorLowering.Aggregate.Assignments
import ColorLowering.Expr.Rendering

/-!
# Initializers

A variable is initialized in its declaration or by statements after it. The strategy for its type
and whether the initializer is an aggregate decide which.
-/
namespace ColorLowering

inductive Initializer where
  /-- What follows the declared name. -/
  | inline (text : String)
  | deferred (statements : List String)

namespace Rendering

def aggregate {α : Type} (ty : Ty) (object : String) (leaves : List Expr)
    (layout : Target → Leaves α) : Rendering α := do
  let texts ← Expr.leafTexts ty object leaves
  layOut (layout (← read).target) texts

/-- The first value of an object of type `ty` called `object`. -/
def initializer (strategy : Strategy) (ty : Ty) (init : Expr) (object : String) :
    Rendering Initializer := do
  let target := (← read).target
  match strategy, init with
  | .assign, .aggregate _ leaves =>
    return .inline (" = " ++ (← aggregate ty object leaves (·.braces ty)) ++ ";")
  | .construct, .aggregate _ leaves =>
    if target.isNative ty then
      let args ← aggregate ty object leaves fun _ => Leaves.flat ty
      return .inline (parenthesized (commaSeparated args) ++ ";")
    else return .deferred (← aggregate ty object leaves (·.fillStatements ty object))
  | .deferred, .aggregate _ leaves =>
    return .deferred (← aggregate ty object leaves (·.fillStatements ty object))
  | .assign, _ => return .inline (" = " ++ (← init.renderAs ty) ++ ";")
  | .construct, _ => return .inline (parenthesized (← init.renderAs ty) ++ ";")
  | .deferred, _ => return .deferred [assignment object (← init.renderAs ty)]

/-- The text that stands for a placeholder at every call that uses it. -/
def placeholder (name : String) (strategy : Strategy) (ty : Ty) (init : Expr) :
    Rendering String := do
  match strategy, init with
  | .deferred, .name _ symbol => resolved symbol
  | .deferred, _ => throw (.unsupportedPlaceholder name)
  | _, .aggregate _ leaves => (Expr.aggregate ty leaves).render
  | .construct, _ => return (← read).target.spelling ty ++ parenthesized (← init.renderAs ty)
  | .assign, _ => init.renderAs ty

end Rendering
end ColorLowering
