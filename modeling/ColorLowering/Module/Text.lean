import ColorLowering.Module.Constants
import ColorLowering.Module.Functions

/-!
# The text of a module

A module is one namespace: its structs, the functions that its constants call, the constants, the
module initializer if any constant needs it, and the functions.
-/
namespace ColorLowering.Emission

def structDefinition (ty : Ty) : Emission Unit :=
  match ty with
  | .struct name members => do
    let target := (← read).target
    line ("struct " ++ Text.unqualified name)
    bracedWith ";" do
      members.forM fun (member, ty) => line ((target.declare member ty .plain).text ++ ";")
    blank
  | _ => pure ()

/-- Everything before the constants. -/
def heading (m : Module) : Emission Unit := do
  surveyConstants m.constants
  let ns := (← read).namespaceText
  blank
  line ("// Module " ++ m.name ++ " (" ++ m.file ++ ")")
  blank
  line ("namespace " ++ ns ++ " \x7b")
  blank
  m.structs.forM structDefinition
  forwardDeclarations m.functions

/-- Everything after the constants and their initializer. -/
def ending (m : Module) : Emission Unit := do
  m.functions.forM function
  line ("\x7d // namespace " ++ (← read).namespaceText)

def module (m : Module) : Emission Unit := do
  heading m
  let lowered ← constants m.constants
  moduleInitializer (lowered.flatMap LoweredConstant.statements)
  ending m

end ColorLowering.Emission
