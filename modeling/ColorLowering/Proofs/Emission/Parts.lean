import ColorLowering.Proofs.Constants.Section
import ColorLowering.Proofs.Session.ForwardDeclarations

/-!
# The parts of a module in its text

A run of a module is the run of its parts one after the other. At the left edge a line is written as
it stands, whatever lines it holds, and so a module that begins there has its banner first and its
footer last.
-/
namespace ColorLowering

namespace Text.Writer

theorem exists_text_of_extends {w later : Writer} (h : w.Extends later) :
    ∃ added, later.text = w.text ++ added := by
  obtain ⟨pieces, hpieces⟩ := h
  exact ⟨joined pieces, by rw [text, text, hpieces, joined_append]⟩

end Text.Writer

def bannerText (name file ns : String) : String :=
  "\n// Module " ++ name ++ " (" ++ file ++ ")\n\nnamespace " ++ ns ++ " \x7b\n\n"

def footerText (ns : String) : String := "\x7d // namespace " ++ ns ++ "\n"

namespace Emission

variable {ctx : ModuleContext} {s t : EmissionState} {m : Module}

/-- The states between the parts of a module that is lowered. -/
structure ModuleRun (ctx : ModuleContext) (m : Module) (s surveyed opened start : EmissionState)
    (lowered : List LoweredConstant) (declared closed last : EmissionState) : Prop where
  survey : surveyConstants m.constants ctx s = (.ok (), surveyed)
  opening : opening m ctx surveyed = (.ok (), opened)
  forward : forwardDeclarations m.functions ctx opened = (.ok (), start)
  constants : constants m.constants ctx start = (.ok lowered, declared)
  initializer : moduleInitializer (lowered.flatMap LoweredConstant.statements) ctx declared =
    (.ok (), closed)
  functions : m.functions.forM function ctx closed = (.ok (), last)

theorem moduleRun_of_ok (hrun : module m ctx s = (.ok (), t)) :
    ∃ surveyed opened start lowered declared closed last,
      ModuleRun ctx m s surveyed opened start lowered declared closed last ∧
      t = last.withBody (last.body.line ("\x7d // namespace " ++ ctx.namespaceText)) := by
  obtain ⟨_, start, hheading, hrest⟩ := bind_eq_ok.mp hrun
  obtain ⟨surveyed, opened, hsurvey, hopening, hforward⟩ := heading_ok hheading
  obtain ⟨lowered, declared, hconstants, hrest⟩ := bind_eq_ok.mp hrest
  obtain ⟨_, closed, hinit, hending⟩ := bind_eq_ok.mp hrest
  obtain ⟨_, last, hfunctions, hlast⟩ := bind_eq_ok.mp hending
  obtain ⟨_, _, hread, hlast⟩ := bind_eq_ok.mp hlast
  cases hread
  cases hlast
  exact ⟨surveyed, opened, start, lowered, declared, closed, last,
    ⟨hsurvey, hopening, hforward, hconstants, hinit, hfunctions⟩, rfl⟩

theorem text_of_opening (hs : s.body.level = 0) (hrun : opening m ctx s = (.ok (), t)) :
    ∃ structs, t.body.text =
      s.body.text ++ bannerText m.name m.file ctx.namespaceText ++ structs := by
  let banner :=
    (((s.body.blank.line ("// Module " ++ m.name ++ " (" ++ m.file ++ ")")).blank).line
      ("namespace " ++ ctx.namespaceText ++ " \x7b")).blank
  have hstructs : m.structs.forM structDefinition ctx (s.withBody banner) = (.ok (), t) := hrun
  have structs : WithinAt (fun s t => s.Grew t ∧ s.SameMargins t) EmissionState.Grew ctx
      (m.structs.forM structDefinition) :=
    (growth_frame.property ctx).forM fun ty _ => (growth_frame.property ctx).structDefinition ty
  obtain ⟨added, htext⟩ := Text.Writer.exists_text_of_extends (structs.done hstructs).1.2
  have written :
      banner.text = s.body.text ++ bannerText m.name m.file ctx.namespaceText := by
    have first : "\n// Module " = "\n" ++ "// Module " := by decide
    have second : ")\n\nnamespace " = ")" ++ ("\n" ++ ("\n" ++ "namespace ")) := by decide
    have third : " \x7b\n\n" = " \x7b" ++ ("\n" ++ "\n") := by decide
    change _ = s.body.text ++ ("\n// Module " ++ m.name ++ " (" ++ m.file ++ ")\n\nnamespace " ++
      ctx.namespaceText ++ " \x7b\n\n")
    simp only [banner, first, second, third, Text.Writer.line, Text.Writer.text_blank,
      Text.Writer.text_raw, Text.Writer.level_blank, Text.Writer.level_raw, hs,
      Text.Writer.indentLines_zero, String.append_assoc]
  exact ⟨added, htext.trans (by rw [← written]; rfl)⟩

namespace ModuleRun

variable {surveyed opened start declared closed last : EmissionState}
  {lowered : List LoweredConstant}
  (h : ModuleRun ctx m s surveyed opened start lowered declared closed last)
include h

theorem body_surveyed : surveyed.body = s.body := (surveyConstants_notes h.survey).1

theorem grew_opened : surveyed.Grew opened ∧ surveyed.SameMargins opened :=
  (growth_frame.within_opening m).done h.opening

theorem grew_start : opened.Grew start ∧ opened.SameMargins start :=
  (growth_frame.within_forwardDeclarations m.functions).done h.forward

theorem grew_closed : start.Grew closed ∧ start.SameMargins closed :=
  growth_frame.trans
    ((growth_frame.toConstantFrame.within_constants m.constants).done h.constants)
    (((growth_frame.property ctx).moduleInitializer _).done h.initializer)

theorem grew_last : closed.Grew last ∧ closed.SameMargins last := by
  have functions : WithinAt (fun s t => s.Grew t ∧ s.SameMargins t) EmissionState.Grew ctx
      (m.functions.forM function) :=
    (growth_frame.property ctx).forM fun f _ =>
      (growth_frame.toFunctionFrame.functionProperty ctx).function (.refl _) (fun _ _ => rfl)
        fun _ _ => trivial
  exact functions.done h.functions

theorem left (hs : s.body.level = 0) : opened.body.level = 0 ∧ start.body.level = 0 ∧
    closed.body.level = 0 ∧ last.body.level = 0 := by
  have surveyed_left : surveyed.body.level = 0 := by rw [h.body_surveyed, hs]
  have opened_left := h.grew_opened.2.2.trans surveyed_left
  have start_left := h.grew_start.2.2.trans opened_left
  have closed_left := h.grew_closed.2.2.trans start_left
  exact ⟨opened_left, start_left, closed_left, h.grew_last.2.2.trans closed_left⟩

end ModuleRun

/-- A module that is written from the left edge on has its banner first and its footer last. -/
theorem framed_of_module (hs : s.body.level = 0) (hrun : module m ctx s = (.ok (), t)) :
    ∃ content, t.body.text = s.body.text ++ bannerText m.name m.file ctx.namespaceText ++
      content ++ footerText ctx.namespaceText := by
  obtain ⟨surveyed, opened, start, lowered, declared, closed, last, run, rfl⟩ :=
    moduleRun_of_ok hrun
  have surveyed_left : surveyed.body.level = 0 := by rw [run.body_surveyed, hs]
  obtain ⟨structs, hopened⟩ := text_of_opening surveyed_left run.opening
  have later : opened.body.Extends last.body :=
    (run.grew_start.1.2.trans run.grew_closed.1.2).trans run.grew_last.1.2
  obtain ⟨rest, hlast⟩ := Text.Writer.exists_text_of_extends later
  refine ⟨structs ++ rest, ?_⟩
  have written : last.body.text = s.body.text ++
      bannerText m.name m.file ctx.namespaceText ++ (structs ++ rest) := by
    rw [hlast, hopened, run.body_surveyed, String.append_assoc]
  change _ = _ ++ ("\x7d // namespace " ++ ctx.namespaceText ++ "\n")
  simp only [EmissionState.withBody, Text.Writer.line, Text.Writer.text_raw, (run.left hs).2.2.2,
    Text.Writer.indentLines_zero, written, String.append_assoc]

end Emission
end ColorLowering
