import ColorLowering.Proofs.Emission.Growth

/-!
# A module up to its functions

The constants of a module are followed by its initializer, which runs the statements that they leave
behind, if there are any. The functions after it change nothing of what is known.
-/
namespace ColorLowering
namespace Emission

/-- Statements and functions classify no symbol. -/
theorem known_frame : FunctionFrame
    (fun s t => t.tables.known = s.tables.known) (fun _ _ => True) where
  refl _ := rfl
  trans hst htu := htu.trans hst
  stop _ := trivial
  fail _ _ := trivial
  texts _ _ := rfl
  line _ _ := rfl
  blank _ := rfl
  braced _ h := h
  bracedFailed _ := trivial
  indented h := h
  indentedFailed _ := trivial
  header _ _ := rfl
  entry _ _ := rfl

variable {ctx : ModuleContext} {s u : EmissionState}

theorem forM_line_apply (lines : List String) :
    (lines.forM line) ctx s = (.ok (), s.withBody (lines.foldl Text.Writer.line s.body)) := by
  rw [List.forM_eq_forM]
  induction lines generalizing s with
  | nil => rfl
  | cons text rest ih =>
      rw [List.forM_cons, bind_apply, line_apply]
      exact ih

def writeInitializer (ns : String) (statements : List String) (w : Text.Writer) : Text.Writer :=
  if statements.isEmpty then w
  else
    let inside := statements.foldl Text.Writer.line
      ((w.line ("struct __ctlcc_InitVals_" ++ ns)).openBrace.line
        ("__ctlcc_InitVals_" ++ ns ++ "( void )")).openBrace
    ((inside.closeBrace.closeBraceWith ";").line
      ("static __ctlcc_InitVals_" ++ ns ++ " __ctlcc_GlobalInitializer_" ++ ns ++ ";")).blank

theorem moduleInitializer_apply (statements : List String) :
    moduleInitializer statements ctx s =
      (.ok (), s.withBody (writeInitializer ctx.namespaceText statements s.body)) := by
  unfold moduleInitializer writeInitializer
  split
  · rfl
  · simp only [bind_apply, read_apply, line_apply, bracedWith, braced, blank, writeBody_apply,
      forM_line_apply, EmissionState.withBody, Text.Writer.closeBrace]

theorem constants_ok {cs : List Constant} {out : List LoweredConstant}
    (hrun : constants cs ctx s = (.ok out, u)) :
    ∃ t, constantList cs ctx s = (.ok out, t) ∧
      u = t.withBody (if cs.isEmpty then t.body else t.body.blank) := by
  obtain ⟨out', t, hlist, hrun⟩ := bind_eq_ok.mp hrun
  dsimp only at hrun
  by_cases hempty : cs.isEmpty
  · rw [if_pos hempty] at hrun
    cases hrun
    exact ⟨_, hlist, by rw [if_pos hempty]; rfl⟩
  · rw [if_neg hempty] at hrun
    cases hrun
    exact ⟨t, hlist, by rw [if_neg hempty]; rfl⟩

/-- The runs that make up a module, up to its first function. -/
theorem module_runs {m : Module} (hrun : module m ctx s = (.ok (), u)) :
    ∃ start t lowered, heading m ctx s = (.ok (), start) ∧
      constantList m.constants ctx start = (.ok lowered, t) ∧
      (writeInitializer ctx.namespaceText (lowered.flatMap LoweredConstant.statements)
        (if m.constants.isEmpty then t.body else t.body.blank)).Extends u.body ∧
      u.tables.known = t.tables.known := by
  obtain ⟨_, start, hheading, hrun⟩ := bind_eq_ok.mp hrun
  obtain ⟨lowered, t₁, hconstants, hrun⟩ := bind_eq_ok.mp hrun
  obtain ⟨_, t₂, hinit, hrest⟩ := bind_eq_ok.mp hrun
  obtain ⟨t, hlist, rfl⟩ := constants_ok hconstants
  rw [moduleInitializer_apply] at hinit
  cases hinit
  refine ⟨start, t, lowered, hheading, hlist, ?_, ?_⟩
  · exact ((growth_frame.toFunctionFrame.within_ending m).done hrest).1.2
  · have known := (known_frame.within_ending m).done hrest
    exact known

end Emission
end ColorLowering
