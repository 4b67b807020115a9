import ColorLowering.Proofs.Emission.Frame

/-!
# Every emitter stays within its frame

Statements need the least of a frame; functions, constants and the survey of a module each need the
steps that they take themselves, and a whole module needs them all.
-/
namespace ColorLowering

open Emission

structure ModuleFrame (Done Failed : EmissionState → EmissionState → Prop) : Prop
    extends SurveyFrame Done Failed, ConstantFrame Done Failed, FunctionFrame Done Failed

variable {Done Failed : EmissionState → EmissionState → Prop}

theorem StatementFrame.within_forwardDeclarations (F : StatementFrame Done Failed)
    (functions : List Function) : Within Done Failed (forwardDeclarations functions) :=
  fun ctx => (F.property ctx).forwardDeclarations fun _ _ => .refl _

theorem StatementFrame.within_opening (F : StatementFrame Done Failed) (m : Module) :
    Within Done Failed (opening m) :=
  fun ctx => (F.property ctx).opening m

namespace FunctionFrame

variable (F : FunctionFrame Done Failed)
include F

theorem functionProperty (ctx : ModuleContext) :
    FunctionProperty ctx ctx Eq (fun _ _ => True) (WithinAt Done Failed ctx) where
  toStatementProperty := F.property ctx
  publish name head symbol := by
    unfold publicDeclaration
    apply F.withinAt_bind fun s => F.refl s
    intro ctx
    apply F.withinAt_bind
    · exact fun s => F.header s _
    · exact fun _ s => F.entry s _

theorem within_ending (m : Module) : Within Done Failed (ending m) :=
  fun ctx => (F.functionProperty ctx).ending (fun _ _ => .refl _) (fun _ _ _ _ => rfl)
    fun _ _ _ _ => trivial

end FunctionFrame

namespace ConstantFrame

variable (F : ConstantFrame Done Failed)
include F

theorem constantProperty (ctx : ModuleContext) :
    ConstantProperty ctx ctx Eq (fun _ _ => True) (fun _ => True) (WithinAt Done Failed ctx) where
  toStatementProperty := F.property ctx
  global {c} strategy _ _ _ s := F.trans (F.global s c.symbol strategy) (F.line _ _)
  placeholder {c init} strategy _ hinit _ _ := by
    unfold placeholderConstant
    rw [hinit]
    apply F.withinAt_bind (F.withinAt_rendering true _)
    intro text s
    exact F.default s c.symbol text

theorem within_constant (c : Constant) : Within Done Failed (constant c) :=
  fun ctx => (F.constantProperty ctx).constant (.refl c) trivial fun _ _ => trivial

theorem within_constantList (cs : List Constant) : Within Done Failed (constantList cs) :=
  fun ctx => (F.property ctx).constantList_of fun c _ => F.within_constant c ctx

theorem within_constants (cs : List Constant) : Within Done Failed (constants cs) :=
  fun ctx => (F.property ctx).constants_of fun c _ => F.within_constant c ctx

end ConstantFrame

namespace SurveyFrame

variable (F : SurveyFrame Done Failed)
include F

theorem within_surveyLiteral (symbol : SymbolId) (init : Expr) :
    Within Done Failed (surveyLiteral symbol init) := by
  intro ctx s
  simp only [surveyLiteral, Emission.bind_apply, read_apply, known_apply]
  cases (init.value? ctx.target.precision s.tables.known.folded).bind
      (·.convertTo? ctx.target.precision (ctx.program.symbol symbol).ty) with
  | some value => exact F.literal s symbol value.text (some value)
  | none =>
      simp only [Emission.bind_apply, render, rendering_apply]
      cases init.renderAs (ctx.program.symbol symbol).ty (ctx.scope s.tables.known false)
          s.tables.defaultTexts with
      | mk result texts =>
          cases result with
          | error e => exact F.fail (F.texts s texts) (F.stop _)
          | ok text =>
              exact F.trans (F.texts s texts) (F.literal (s.withTexts texts) symbol text none)

theorem within_surveyCallees (symbol : SymbolId) (init : Expr) :
    Within Done Failed (surveyCallees symbol init) := by
  intro ctx s
  simp only [surveyCallees, Emission.bind_apply, read_apply, known_apply]
  have callees := F.callees s (ctx.homeCallees init)
  by_cases h : ((ctx.homeCallees init).isEmpty || (ctx.program.symbol symbol).isPlaceholder) = true
  · simp only [if_pos h, setKnown_apply]
    exact callees
  · simp only [if_neg h, setKnown_apply]
    exact F.trans callees (F.needsModuleInit _ symbol)

theorem within_surveyConstants (cs : List Constant) : Within Done Failed (surveyConstants cs) := by
  intro ctx
  induction cs with
  | nil => exact (F.property ctx).pure _
  | cons c rest ih =>
      rw [surveyConstants]
      apply F.withinAt_bind
      · unfold surveyConstant
        split
        · exact (F.property ctx).pure _
        · apply (F.property ctx).known fun k k' hk => by rw [hk]
          intro k
          split
          · exact F.within_surveyLiteral _ _ ctx
          · exact F.within_surveyCallees _ _ ctx
      · intro _
        exact ih

end SurveyFrame

namespace ModuleFrame

variable (F : ModuleFrame Done Failed)
include F

theorem within_heading (m : Module) : Within Done Failed (heading m) := by
  intro ctx
  rw [heading_eq]
  apply F.withinAt_bind (F.within_surveyConstants m.constants ctx)
  intro _
  apply F.withinAt_bind ((F.property ctx).opening m)
  intro _
  exact (F.property ctx).forwardDeclarations fun _ _ => .refl _

theorem within_module (m : Module) : Within Done Failed (module m) := by
  intro ctx
  unfold module
  apply F.withinAt_bind (F.within_heading m ctx)
  intro _
  apply F.withinAt_bind (F.toConstantFrame.within_constants m.constants ctx)
  intro lowered
  apply F.withinAt_bind ((F.property ctx).moduleInitializer _)
  intro _
  exact F.toFunctionFrame.within_ending m ctx

end ModuleFrame
end ColorLowering
