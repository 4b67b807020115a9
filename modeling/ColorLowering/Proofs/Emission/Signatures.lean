import ColorLowering.Proofs.Emission.Parts

/-!
# The head of a function in its texts

A function can be written three times: in the header if it is an entry routine, ahead of the
constants if one of their initializers calls it, and with its body. All three texts have the same
head. Nothing but the definition of a function writes to the header or enters a routine.
-/
namespace ColorLowering

def Symbol.params (s : Symbol) : List Param :=
  match s.kind with
  | .var .. => []
  | .fn params _ => params

structure FunctionHead where
  ret : String
  name : String
  params : String

namespace FunctionHead

def declaration (head : FunctionHead) (storage : String) : String :=
  storage ++ head.ret ++ " " ++ head.name ++ head.params ++ ";"

def publicText (head : FunctionHead) (ns : String) : String :=
  "namespace " ++ ns ++ " \x7b\n" ++ head.declaration "" ++ "\n\x7d // namespace " ++ ns ++ "\n"

def definition (head : FunctionHead) (storage code : String) : String :=
  storage ++ head.ret ++ "\n" ++ head.name ++ head.params ++ "\n\x7b\n" ++ code ++ "\x7d\n\n"

end FunctionHead

namespace Program

def head (p : Program) (t : Target) (f : SymbolId) : FunctionHead :=
  let s := p.symbol f
  ⟨t.spelling s.ty, p.functionName s, parameterList t s.params⟩

def routine (p : Program) (t : Target) (m : ModuleId) (f : SymbolId) : EntryRoutine :=
  let name := (p.head t f).name
  ⟨name, p.namespaceOf m ++ "::" ++ name, f⟩

end Program

namespace ModuleContext

def head (ctx : ModuleContext) (f : Function) : FunctionHead := ctx.program.head ctx.target f.symbol

def isEntry (ctx : ModuleContext) (f : Function) : Bool :=
  ctx.program.isEntry (ctx.program.symbol f.symbol)

def WritesCode (ctx : ModuleContext) (f : Function) (code : String) : Prop :=
  ∃ s t, s.body.level = 1 ∧
    Emission.statements (ctx.program.symbol f.symbol).ty "if" f.body ctx s = (.ok (), t) ∧
    t.body.text = s.body.text ++ code

end ModuleContext

namespace Emission

def Unpublished (s t : EmissionState) : Prop :=
  t.header = s.header ∧ t.tables.entries = s.tables.entries

theorem unpublished_frame : StatementFrame Unpublished (fun _ _ => True) where
  refl _ := ⟨rfl, rfl⟩
  trans hst htu := ⟨htu.1.trans hst.1, htu.2.trans hst.2⟩
  stop _ := trivial
  fail _ _ := trivial
  texts _ _ := ⟨rfl, rfl⟩
  line _ _ := ⟨rfl, rfl⟩
  blank _ := ⟨rfl, rfl⟩
  braced _ h := h
  bracedFailed _ := trivial
  indented h := h
  indentedFailed _ := trivial

theorem unpublished_constants : ConstantFrame Unpublished (fun _ _ => True) where
  toStatementFrame := unpublished_frame
  global _ _ _ := ⟨rfl, rfl⟩
  default _ _ _ := ⟨rfl, rfl⟩

theorem unpublished_survey : SurveyFrame Unpublished (fun _ _ => True) where
  toStatementFrame := unpublished_frame
  literal _ _ _ _ := ⟨rfl, rfl⟩
  callees _ _ := ⟨rfl, rfl⟩
  needsModuleInit _ _ := ⟨rfl, rfl⟩

/-- The functions `fs` are entered and declared in the header, those of them that are entry
routines. -/
def Publishes (ctx : ModuleContext) (fs : List Function) (s t : EmissionState) : Prop :=
  t.tables.entries = s.tables.entries ++ (fs.filter ctx.isEntry).map
      (fun f => ctx.program.routine ctx.target ctx.module f.symbol) ∧
    t.header.text = s.header.text ++ String.join ((fs.filter ctx.isEntry).map
      fun f => (ctx.head f).publicText ctx.namespaceText)

theorem Publishes.append {ctx : ModuleContext} {fs gs : List Function} {s t u : EmissionState}
    (hst : Publishes ctx fs s t) (htu : Publishes ctx gs t u) : Publishes ctx (fs ++ gs) s u := by
  constructor
  · rw [htu.1, hst.1]
    simp
  · rw [htu.2, hst.2]
    simp [String.append_assoc]

def Defines (ctx : ModuleContext) (known : Classification) (f : Function) (text : String) : Prop :=
  ∃ code, ctx.WritesCode f code ∧ text = (ctx.head f).definition
    (storageText (ctx.isEntry f) (known.calledInInit.contains f.symbol)) code

variable {ctx : ModuleContext} {s t : EmissionState}

theorem signature_ok {symbol : Symbol} {signature : List Param × Ty}
    (hrun : Emission.signature symbol ctx s = (.ok signature, t)) :
    symbol.isFunction ∧ signature = (symbol.params, symbol.ty) ∧ t = s := by
  unfold Emission.signature at hrun
  cases hkind : symbol.kind with
  | var ty writable =>
      simp only [hkind, throw_apply] at hrun
      cases hrun
  | fn params ret =>
      simp only [hkind, pure_apply] at hrun
      cases hrun
      simp [Symbol.isFunction, Symbol.params, Symbol.ty, hkind]

/-- At the left edge a definition is its head and, in braces, its statements one level deep. -/
theorem functionDefinition_ok {head : String} {ret : Ty} {body : List Stmt}
    (hs : s.body.level = 0) (hrun : functionDefinition head ret body ctx s = (.ok (), t)) :
    ∃ u v code, u.body.level = 1 ∧ statements ret "if" body ctx u = (.ok (), v) ∧
      v.body.text = u.body.text ++ code ∧
      t.body.text = s.body.text ++ (head ++ "\n\x7b\n" ++ code ++ "\x7d\n\n") ∧
      Unpublished s t := by
  let opened := s.withBody (s.body.line head).openBrace
  have opened_level : opened.body.level = 1 := by simp [opened, EmissionState.withBody, hs]
  obtain ⟨_, lined, hline, hrest⟩ := bind_eq_ok.mp hrun
  cases hline
  obtain ⟨_, closed, hbraced, hblank⟩ := bind_eq_ok.mp hrest
  cases hblank
  obtain ⟨_, t₁, hopen, hinside⟩ := bind_eq_ok.mp hbraced
  cases hopen
  obtain ⟨_, written, hstatements, hclose⟩ := bind_eq_ok.mp hinside
  cases hclose
  change statements ret "if" body ctx opened = (.ok (), written) at hstatements
  have grew := ((growth_frame.property ctx).statements ret "if" body
    (fun _ _ => rfl) fun _ _ => trivial).done hstatements
  have quiet : Unpublished opened written := ((unpublished_frame.property ctx).statements ret "if"
    body (fun _ _ => rfl) fun _ _ => trivial).done hstatements
  obtain ⟨code, hcode⟩ := Text.Writer.exists_text_of_extends grew.1.2
  have written_level : written.body.level = 1 := grew.2.2.trans opened_level
  refine ⟨opened, written, code, opened_level, hstatements, hcode, ?_, quiet⟩
  have opened_text : opened.body.text = s.body.text ++ (head ++ "\n\x7b\n") := by
    simp [opened, EmissionState.withBody, hs, String.append_assoc]
  simp [written_level, hcode, opened_text, Text.Writer.margin,
    String.append_assoc]

def published (ctx : ModuleContext) (f : Function) (s : EmissionState) : EmissionState :=
  if ctx.isEntry f then
    let head := ctx.head f
    (s.withHeader (s.header.line ("namespace " ++ ctx.namespaceText ++ " \x7b\n" ++
      (head.ret ++ " " ++ (head.name ++ head.params)) ++ ";\n\x7d // namespace " ++
      ctx.namespaceText))).withEntry (ctx.program.routine ctx.target ctx.module f.symbol)
  else s

theorem function_runs {f : Function} (hrun : function f ctx s = (.ok (), t)) :
    (ctx.program.symbol f.symbol).isFunction ∧
      functionDefinition (storageText (ctx.isEntry f)
          (s.tables.known.calledInInit.contains f.symbol) ++ (ctx.head f).ret ++ "\n" ++
          ((ctx.head f).name ++ (ctx.head f).params))
        (ctx.program.symbol f.symbol).ty f.body ctx (published ctx f s) = (.ok (), t) := by
  obtain ⟨_, u, hread, hrun⟩ := bind_eq_ok.mp hrun
  cases hread
  obtain ⟨signature, u, hsignature, hrest⟩ := bind_eq_ok.mp hrun
  obtain ⟨hfunction, rfl, rfl⟩ := signature_ok hsignature
  refine ⟨hfunction, ?_⟩
  unfold published ModuleContext.isEntry
  dsimp only at hrest
  split at hrest
  · rename_i hentry
    rw [if_pos hentry]
    exact hrest
  · rename_i hentry
    rw [if_neg hentry]
    exact hrest

theorem publishes_published (ctx : ModuleContext) (f : Function) (hs : s.header.level = 0) :
    Publishes ctx [f] s (published ctx f s) ∧ (published ctx f s).header.level = 0 ∧
      (published ctx f s).body = s.body := by
  unfold published
  cases hentry : ctx.isEntry f with
  | false => simp [Publishes, hentry, hs]
  | true =>
      refine ⟨⟨?_, ?_⟩, hs, rfl⟩
      · simp [hentry, EmissionState.withEntry, EmissionState.withHeader]
      · simp [hentry, EmissionState.withEntry, EmissionState.withHeader, hs,
          FunctionHead.publicText, FunctionHead.declaration, String.append_assoc]

/-- Lowering a function at the left edge publishes it if it is an entry routine, and defines it. -/
theorem function_ok {f : Function} (hheader : s.header.level = 0) (hbody : s.body.level = 0)
    (hrun : function f ctx s = (.ok (), t)) :
    (ctx.program.symbol f.symbol).isFunction ∧ Publishes ctx [f] s t ∧
      ∃ text, Defines ctx s.tables.known f text ∧ t.body.text = s.body.text ++ text := by
  obtain ⟨hfunction, hdefinition⟩ := function_runs hrun
  obtain ⟨⟨hentries, htext⟩, -, hsame⟩ := publishes_published ctx f hheader
  obtain ⟨u, v, code, hlevel, hstatements, hcode, hwritten, hheaders, hkept⟩ :=
    functionDefinition_ok (hsame ▸ hbody) hdefinition
  refine ⟨hfunction, ⟨?_, ?_⟩, _, ⟨code, ⟨u, v, hlevel, hstatements, hcode⟩, rfl⟩, ?_⟩
  · rw [hkept, hentries]
  · rw [hheaders, htext]
  · rw [hwritten, hsame]
    simp [FunctionHead.definition, String.append_assoc]

/-- Functions lowered in a row at the left edge are published and defined in this order. -/
theorem functions_ok {fs : List Function} (hheader : s.header.level = 0) (hbody : s.body.level = 0)
    (hrun : fs.forM function ctx s = (.ok (), t)) :
    (∀ f ∈ fs, (ctx.program.symbol f.symbol).isFunction) ∧ Publishes ctx fs s t ∧
      ∃ texts, List.Forall₂ (Defines ctx s.tables.known) fs texts ∧
        t.body.text = s.body.text ++ String.join texts := by
  rw [List.forM_eq_forM] at hrun
  induction fs generalizing s with
  | nil =>
      cases hrun
      exact ⟨by simp, ⟨by simp, by simp⟩, [], .nil, by simp⟩
  | cons f rest ih =>
      rw [List.forM_cons] at hrun
      obtain ⟨_, u, hfirst, hrest⟩ := bind_eq_ok.mp hrun
      obtain ⟨hfunction, hpublished, text, hdefined, htext⟩ := function_ok hheader hbody hfirst
      have stays {Done Failed : EmissionState → EmissionState → Prop}
          (F : FunctionFrame Done Failed) : Done s u :=
        ((F.functionProperty ctx).function (.refl _) (fun _ _ => rfl) fun _ _ => trivial).done
          hfirst
      obtain ⟨-, header_level, body_level⟩ := stays growth_frame.toFunctionFrame
      obtain ⟨hfunctions, hpublishes, texts, hdefines, htexts⟩ :=
        ih (header_level.trans hheader) (body_level.trans hbody) hrest
      refine ⟨List.forall_mem_cons.mpr ⟨hfunction, hfunctions⟩, hpublished.append hpublishes, text :: texts,
        .cons hdefined ?_, ?_⟩
      · rwa [stays known_frame] at hdefines
      · rw [htexts, htext]
        simp [String.append_assoc]

theorem forwardLine_eq {f : Function} (hf : (ctx.program.symbol f.symbol).isFunction) :
    ctx.forwardLine f = (ctx.head f).declaration (storageText (ctx.isEntry f) true) := by
  cases hkind : (ctx.program.symbol f.symbol).kind with
  | var ty writable => simp [Symbol.isFunction, hkind] at hf
  | fn params ret =>
      simp [ModuleContext.forwardLine, ModuleContext.head, Program.head, ModuleContext.isEntry,
        FunctionHead.declaration, storageText, Symbol.ty, Symbol.params, hkind]

namespace ModuleRun

variable {m : Module} {surveyed opened start declared closed last : EmissionState}
  {lowered : List LoweredConstant}
  (h : ModuleRun ctx m s surveyed opened start lowered declared closed last)
include h

theorem unpublished : Unpublished s closed :=
  have constants := (unpublished_constants.within_constants m.constants).done h.constants
  have initializer :=
    ((unpublished_frame.property ctx).moduleInitializer _).done h.initializer
  have forward := (unpublished_frame.within_forwardDeclarations m.functions).done h.forward
  have opening := (unpublished_frame.within_opening m).done h.opening
  have survey := (unpublished_survey.within_surveyConstants m.constants).done h.survey
  unpublished_frame.trans survey (unpublished_frame.trans opening
    (unpublished_frame.trans forward (unpublished_frame.trans constants initializer)))

/-- The functions that the survey noted are those that are declared ahead and known when the
functions are defined. -/
theorem calledInInit : opened.tables.known.calledInInit = surveyed.tables.known.calledInInit ∧
    closed.tables.known.calledInInit = surveyed.tables.known.calledInInit := by
  have opening := (known_frame.within_opening m).done h.opening
  have forward := (known_frame.within_forwardDeclarations m.functions).done h.forward
  have constants := ((literals_frame.within_constants m.constants).done h.constants).2.2
  have initializer := ((known_frame.property ctx).moduleInitializer _).done h.initializer
  rw [initializer, constants, forward, opening]
  exact ⟨rfl, rfl⟩

end ModuleRun

end Emission
end ColorLowering
