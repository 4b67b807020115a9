import ColorLowering.Proofs.Emission.Initializer

/-!
# What stands before the constants

A module is surveyed before anything of it is written. Its opening and its structs follow, and then
one line for each function that is declared ahead.
-/
namespace ColorLowering

/-- The line that declares a function ahead. -/
def ModuleContext.forwardLine (ctx : ModuleContext) (f : Function) : String :=
  let s := ctx.program.symbol f.symbol
  match s.kind with
  | .fn params ret =>
    (if ctx.program.isEntry s then "" else "static ") ++ ctx.target.spelling ret ++ " " ++
      ctx.program.functionName s ++ parameterList ctx.target params ++ ";"
  | .var .. => ""

namespace Emission

variable {ctx : ModuleContext} {s t u : EmissionState}

theorem forwardDeclaration_ok {f : Function} (hrun : forwardDeclaration f ctx s = (.ok (), u)) :
    u = s.withBody (s.body.line (ctx.forwardLine f)) := by
  obtain ⟨ctx', t, hread, hrun⟩ := bind_eq_ok.mp hrun
  cases hread
  obtain ⟨signature, t, hsignature, hrun⟩ := bind_eq_ok.mp hrun
  unfold ModuleContext.forwardLine
  unfold Emission.signature at hsignature
  cases hkind : (ctx.program.symbol f.symbol).kind with
  | var ty writable =>
      simp only [hkind, throw_apply] at hsignature
      cases hsignature
  | fn params ret =>
      simp only [hkind, pure_apply] at hsignature
      cases hsignature
      dsimp only at hrun
      rw [line_apply] at hrun
      simp only [hkind]
      exact (Prod.mk.inj hrun).2.symm

theorem forM_forwardDeclaration_ok {functions : List Function}
    (hrun : functions.forM forwardDeclaration ctx s = (.ok (), u)) :
    u = s.withBody ((functions.map ctx.forwardLine).foldl Text.Writer.line s.body) := by
  rw [List.forM_eq_forM] at hrun
  induction functions generalizing s with
  | nil =>
      cases hrun
      rfl
  | cons f rest ih =>
      rw [List.forM_cons] at hrun
      obtain ⟨_, t, hfirst, hrest⟩ := bind_eq_ok.mp hrun
      rw [forwardDeclaration_ok hfirst] at hrest
      exact ih hrest

/-- The functions declared ahead are those noted by the survey, one line for each. -/
theorem forwardDeclarations_ok {functions : List Function}
    (hrun : forwardDeclarations functions ctx s = (.ok (), u)) :
    let called := functions.filter fun f => s.tables.known.calledInInit.contains f.symbol
    let declared := (called.map ctx.forwardLine).foldl Text.Writer.line s.body
    u = s.withBody (if called.isEmpty then declared else declared.blank) := by
  obtain ⟨k, t, hknown, hrun⟩ := bind_eq_ok.mp hrun
  cases hknown
  obtain ⟨_, t, hlines, hrun⟩ := bind_eq_ok.mp hrun
  dsimp only at hlines hrun ⊢
  generalize functions.filter (fun f => s.tables.known.calledInInit.contains f.symbol) = called
    at hlines hrun ⊢
  rw [forM_forwardDeclaration_ok hlines] at hrun
  split at hrun
  · cases hrun
    rw [if_pos ‹_›]
  · cases hrun
    rw [if_neg ‹_›]
    rfl

theorem heading_ok {m : Module} (hrun : heading m ctx s = (.ok (), u)) :
    ∃ surveyed opened, surveyConstants m.constants ctx s = (.ok (), surveyed) ∧
      opening m ctx surveyed = (.ok (), opened) ∧
      forwardDeclarations m.functions ctx opened = (.ok (), u) := by
  rw [heading_eq] at hrun
  obtain ⟨_, surveyed, hsurvey, hrun⟩ := bind_eq_ok.mp hrun
  obtain ⟨_, opened, hopened, hdeclared⟩ := bind_eq_ok.mp hrun
  exact ⟨surveyed, opened, hsurvey, hopened, hdeclared⟩

/-- After the survey nothing before the constants classifies a symbol. -/
theorem heading_surveys {m : Module} (hrun : heading m ctx s = (.ok (), u)) :
    ∃ surveyed, surveyConstants m.constants ctx s = (.ok (), surveyed) ∧
      u.tables.known = surveyed.tables.known := by
  obtain ⟨surveyed, opened, hsurvey, hopened, hdeclared⟩ := heading_ok hrun
  have known := (known_frame.within_opening m).done hopened
  exact ⟨surveyed, hsurvey,
    ((known_frame.within_forwardDeclarations m.functions).done hdeclared).trans known⟩

end Emission
end ColorLowering
