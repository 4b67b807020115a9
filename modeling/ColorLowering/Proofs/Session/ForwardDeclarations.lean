import ColorLowering.Proofs.Constants.Callees
import ColorLowering.Proofs.Constants.Lowering
import ColorLowering.Proofs.Constants.Survey
import ColorLowering.Proofs.Emission.Heading
import ColorLowering.Proofs.Session.Reached
import Mathlib.Tactic.Tauto

/-!
# Functions declared ahead of the constants

The survey notes the functions of the module that an initializer calls outright, and these are the
ones that a module declares before its first constant. A call that is only rendered within the
default of an omitted argument is not noted: its function is declared ahead just when some
initializer of the module calls it outright as well.
-/
namespace ColorLowering

namespace Program

def callsOutright (p : Program) (m : ModuleId) (f : SymbolId) : Bool :=
  (p.module m).constants.any fun c => c.init.any fun init => init.callees.contains f

def RendersCall (p : Program) (m : ModuleId) (f : SymbolId) : Prop :=
  ∃ c ∈ (p.module m).constants, ∃ init, c.init = some init ∧ init.RendersCall f

def RendersInDefault (p : Program) (m : ModuleId) (f : SymbolId) : Prop :=
  ∃ c ∈ (p.module m).constants, ∃ init, c.init = some init ∧ init.RendersInDefault f

theorem callsOutright_iff {p : Program} {m : ModuleId} {f : SymbolId} :
    p.callsOutright m f ↔
      ∃ c ∈ (p.module m).constants, ∃ init, c.init = some init ∧ f ∈ init.callees := by
  simp [callsOutright, Option.any_eq_true]

/-- Only functions that are called in a default and nowhere else can escape the scan. -/
theorem all_noted_iff {p : Program} {m : ModuleId} {functions : List Function} :
    (∀ f ∈ functions, p.RendersCall m f.symbol → p.callsOutright m f.symbol) ↔
      ∀ f ∈ functions, p.RendersInDefault m f.symbol → p.callsOutright m f.symbol := by
  constructor
  · rintro h f hf ⟨c, hc, init, hinit, hdefault⟩
    exact h f hf ⟨c, hc, init, hinit, Expr.rendersCall_iff.mpr (.inr hdefault)⟩
  · rintro h f hf ⟨c, hc, init, hinit, hcall⟩
    obtain houtright | hdefault := Expr.rendersCall_iff.mp hcall
    · exact callsOutright_iff.mpr ⟨c, hc, init, hinit, houtright.mem_callees⟩
    · exact h f hf ⟨c, hc, init, hinit, hdefault⟩

end Program

theorem Classification.contains_addCallees (k : Classification) (callees : List SymbolId)
    (f : SymbolId) :
    (k.addCallees callees).calledInInit.contains f ↔ k.calledInInit.contains f ∨ f ∈ callees := by
  unfold addCallees
  generalize k.calledInInit = called
  induction callees generalizing called with
  | nil => simp
  | cons g rest ih =>
      rw [List.foldl_cons]
      refine (ih _).trans ?_
      simp only [Table.contains_insert, Bool.or_eq_true, decide_eq_true_eq, List.mem_cons]
      tauto

namespace Emission

variable {ctx : ModuleContext} {c : Constant} {s t : EmissionState}

theorem Surveys.body (h : Surveys ctx c s t) : t.body = s.body := by cases h <;> rfl

/-- A survey notes the callees at home of every constant, for a literal calls nothing. -/
theorem Surveys.notes (h : Surveys ctx c s t) (f : SymbolId) :
    t.tables.known.calledInInit.contains f ↔ s.tables.known.calledInInit.contains f ∨
      ∃ init, c.init = some init ∧ f ∈ ctx.homeCallees init := by
  have silent : ∀ init, c.init = some init → init.isLiteral s.tables.known.literals →
      ¬ ∃ init, c.init = some init ∧ f ∈ ctx.homeCallees init := by
    rintro init hinit hliteral ⟨init', hinit', hf⟩
    rw [hinit] at hinit'
    cases hinit'
    rw [ModuleContext.homeCallees, Expr.callees_of_isLiteral init hliteral] at hf
    cases hf
  cases h with
  | bare hinit => simp [hinit]
  | folded hinit _ hliteral _ => exact (or_iff_left (silent _ hinit hliteral)).symm
  | verbatim hinit _ hliteral _ _ => exact (or_iff_left (silent _ hinit hliteral)).symm
  | calling hinit _ =>
      refine (Classification.contains_addCallees _ _ f).trans (or_congr_right ?_)
      simp [hinit]
  | waiting hinit _ =>
      refine (Classification.contains_addCallees _ _ f).trans (or_congr_right ?_)
      simp [hinit]

theorem surveyConstants_notes {cs : List Constant}
    (hrun : surveyConstants cs ctx s = (.ok (), t)) :
    t.body = s.body ∧ ∀ f, t.tables.known.calledInInit.contains f ↔
      s.tables.known.calledInInit.contains f ∨
        ∃ c ∈ cs, ∃ init, c.init = some init ∧ f ∈ ctx.homeCallees init := by
  induction cs generalizing s with
  | nil =>
      cases hrun
      simp
  | cons c rest ih =>
      obtain ⟨u, hc, hrest⟩ := surveyConstants_cons_ok hrun
      obtain ⟨hbody, hnotes⟩ := ih hrest
      refine ⟨hbody.trans hc.body, fun f => ?_⟩
      rw [hnotes f, hc.notes f, or_assoc]
      simp

/-- In a module of the program, what the survey notes are the functions of the module that its
constants call. -/
theorem surveyConstants_notes_own {ctx : ModuleContext} {s t : EmissionState}
    (hrun : surveyConstants (ctx.program.module ctx.module).constants ctx s = (.ok (), t))
    (f : SymbolId) :
    t.tables.known.calledInInit.contains f ↔ s.tables.known.calledInInit.contains f ∨
      (ctx.program.callsOutright ctx.module f ∧
        (ctx.program.symbol f).module = some ctx.module) := by
  rw [(surveyConstants_notes hrun).2 f, Program.callsOutright_iff]
  refine or_congr_right ?_
  simp only [ModuleContext.homeCallees, ModuleContext.isHome, List.mem_filter, decide_eq_true_eq]
  constructor
  · rintro ⟨c, hc, init, hinit, hf, hhome⟩
    exact ⟨⟨c, hc, init, hinit, hf⟩, hhome⟩
  · rintro ⟨⟨c, hc, init, hinit, hf⟩, hhome⟩
    exact ⟨c, hc, init, hinit, hf, hhome⟩

theorem module_notes {ctx : ModuleContext} {s t : EmissionState}
    (hrun : module (ctx.program.module ctx.module) ctx s = (.ok (), t)) (f : SymbolId) :
    t.tables.known.calledInInit.contains f ↔ s.tables.known.calledInInit.contains f ∨
      (ctx.program.callsOutright ctx.module f ∧
        (ctx.program.symbol f).module = some ctx.module) := by
  obtain ⟨start, closed, lowered, hheading, hlist, -, hclosed⟩ := module_runs hrun
  obtain ⟨surveyed, hsurvey, hstart⟩ := heading_surveys hheading
  have kept := ((literals_frame.within_constantList _).done hlist).2.2
  rw [hclosed, kept, hstart]
  exact surveyConstants_notes_own hsurvey f

end Emission

namespace Session

/-- A function is noted only where a constant of its own module calls it. -/
theorem Reached.notes {p : Program} {target : Target} {done : List ModuleId} {s : Session}
    (hs : Reached p target done s) {f : SymbolId} {m : ModuleId}
    (hf : s.tables.known.calledInInit.contains f) (hm : (p.symbol f).module = some m) :
    p.callsOutright m f := by
  refine hs.tables_of
    (P := fun _ tables => tables.known.calledInInit.contains f → p.callsOutright m f) nofun
    (fun {done m' u v} before hrun hf => ?_) hf
  obtain hbefore | ⟨hcalls, hhome⟩ := (@Emission.module_notes ⟨p, target, m'⟩ _ _ hrun f).mp hf
  · exact before hbefore
  · obtain rfl := Option.some.inj (hm.symm.trans hhome)
    exact hcalls

/-- The text that `s'` has after that of `s`: the opening of the module, one line for each of the
functions `declared`, and the constants of the module. -/
def DeclaresAhead (p : Program) (m : ModuleId) (s s' : Session) (declared : List Function) :
    Prop :=
  ∃ surveyed opened, ∃ lowered : List LoweredConstant, surveyed.body = s.body ∧
    Emission.opening (p.module m) ⟨p, s.target, m⟩ surveyed = (.ok (), opened) ∧
    lowered.map LoweredConstant.symbol =
      ((p.module m).constants.filter (p.declares s'.tables.known)).map Constant.symbol ∧
    let ahead := (declared.map (ModuleContext.forwardLine ⟨p, s.target, m⟩)).foldl
      Text.Writer.line opened.body
    let written := (lowered.map LoweredConstant.line).foldl Text.Writer.line
      (if declared.isEmpty then ahead else ahead.blank)
    (Emission.writeInitializer (p.namespaceOf m) (lowered.flatMap LoweredConstant.statements)
      (if (p.module m).constants.isEmpty then written else written.blank)).Extends s'.body

/-- Before its constants a module declares those of its functions that a constant calls outright.
These are all whose calls are rendered with the constants exactly when no function is called in the
default of an omitted argument alone. -/
theorem calls_declared_ahead_iff {p : Program} {target : Target} {steps : List Step}
    {m : ModuleId} {s' : Session}
    (howned : ∀ f ∈ (p.module m).functions, (p.symbol f.symbol).module = some m)
    (hrun : (lowerModule p m).run ((new target).after p steps) = (.ok (), s')) :
    let declared := (p.module m).functions.filter fun f => p.callsOutright m f.symbol
    DeclaresAhead p m ((new target).after p steps) s' declared ∧
      ((∀ f ∈ (p.module m).functions, p.RendersCall m f.symbol → f ∈ declared) ↔
        ∀ f ∈ (p.module m).functions, p.RendersInDefault m f.symbol →
          p.callsOutright m f.symbol) := by
  have start : Reached p target [] (new target) := .new
  have reached := start.after steps
  revert hrun reached
  generalize (new target).after p steps = s
  intro hrun reached declared
  constructor
  · obtain ⟨out, -, hout, rfl⟩ | ⟨_, _, hfailed, -, -⟩ := lowerModule_cases hrun
    · obtain ⟨start, closed, lowered, hheading, hlist, htext, hknown⟩ := Emission.module_runs hout
      obtain ⟨surveyed, opened, hsurvey, hopened, hahead⟩ := Emission.heading_ok hheading
      have called : (p.module m).functions.filter
          (fun f => opened.tables.known.calledInInit.contains f.symbol) = declared := by
        refine List.filter_congr fun f hf => ?_
        rw [(Emission.known_frame.within_opening _).done hopened, Bool.eq_iff_iff,
          @Emission.surveyConstants_notes_own ⟨p, s.target, m⟩ _ _ hsurvey f.symbol]
        constructor
        · rintro (hbefore | ⟨hcalls, -⟩)
          · exact reached.notes hbefore (howned f hf)
          · exact hcalls
        · exact fun hcalls => .inr ⟨hcalls, howned f hf⟩
      have ahead := Emission.forwardDeclarations_ok hahead
      rw [called] at ahead
      have literals := ((Emission.literals_frame.within_constantList _).done hlist).1
      have same : p.declares out.tables.known = p.declares start.tables.known := by
        funext c
        rw [Program.declares, Program.declares, hknown, literals]
      have unwritten := (Emission.surveyConstants_notes hsurvey).1
      refine ⟨surveyed, opened, lowered, unwritten, hopened, ?_, ?_⟩
      · rw [same]
        exact Emission.symbols_of_constantList hlist
      · dsimp only at ahead ⊢
        rw [Emission.body_of_constantList hlist, ahead] at htext
        exact htext
    · cases hfailed
  · simp only [declared, List.mem_filter]
    refine Iff.trans ?_ Program.all_noted_iff
    refine forall₂_congr fun f hf => ?_
    simp [hf]

/-- The default for the parameter of `f` is a call of `g`, and a constant calls `f` without
argument. The constants `others` follow. -/
def defaultingProgram (others : List Constant) : Program where
  symbols := #[⟨"g", some ⟨0⟩, .fn [] (.scalar .int)⟩,
    ⟨"f", some ⟨0⟩, .fn [⟨"p", .scalar .int, .read⟩] (.scalar .int)⟩,
    ⟨"x", some ⟨0⟩, .var (.scalar .int) false⟩, ⟨"y", some ⟨0⟩, .var (.scalar .int) false⟩]
  modules := #[⟨"m", "m.ctl", [],
    ⟨⟨2⟩, some (.call (.scalar .int) (.function ⟨1⟩ [.optional "p" (.scalar .int) ⟨1⟩
      (.call (.scalar .int) (.function ⟨0⟩ []) [])]) [])⟩ :: others,
    [⟨⟨0⟩, []⟩, ⟨⟨1⟩, []⟩]⟩]

theorem rendersInDefault_defaultingProgram (others : List Constant) :
    (defaultingProgram others).RendersInDefault ⟨0⟩ ⟨0⟩ :=
  ⟨_, .head _, _, rfl, _, ⟨_, _, _, _, _, _, _, .self, .head _⟩, .outright ⟨_, _, _, .self⟩⟩

/-- The default calls a function that another constant calls outright. -/
def noted : List Constant := [⟨⟨3⟩, some (.call (.scalar .int) (.function ⟨0⟩ []) [])⟩]

theorem noted_call_declared_ahead : ∃ s' declared,
    (lowerModule (defaultingProgram noted) ⟨0⟩).run (new .standard) = (.ok (), s') ∧
    DeclaresAhead (defaultingProgram noted) ⟨0⟩ (new .standard) s' declared ∧
    ⟨⟨0⟩, []⟩ ∈ declared := by
  have run : (lowerModule (defaultingProgram noted) ⟨0⟩).run (new .standard) =
      (.ok (), ((lowerModule (defaultingProgram noted) ⟨0⟩).run (new .standard)).2) :=
    Prod.ext rfl rfl
  obtain ⟨hahead, hall⟩ := @calls_declared_ahead_iff (defaultingProgram noted) .standard [] ⟨0⟩ _
    (by simp [defaultingProgram, Program.module, Program.symbol]) run
  refine ⟨_, _, run, hahead, hall.mpr ?_ _ (.head _) ?_⟩
  · intro f hf _
    have listed : f = ⟨⟨0⟩, []⟩ ∨ f = ⟨⟨1⟩, []⟩ := by
      simpa [defaultingProgram, Program.module] using hf
    rcases listed with rfl | rfl <;> rfl
  · obtain ⟨c, hc, init, hinit, hdefault⟩ := rendersInDefault_defaultingProgram noted
    exact ⟨c, hc, init, hinit, Expr.rendersCall_iff.mpr (.inr hdefault)⟩

/-- Without another call the call of `g` is rendered before `g` is declared. -/
theorem default_call_not_declared_ahead : ∃ s',
    (lowerModule (defaultingProgram []) ⟨0⟩).run (new .standard) = (.ok (), s') ∧
    (defaultingProgram []).RendersCall ⟨0⟩ ⟨0⟩ ∧
    ModuleContext.forwardLine ⟨defaultingProgram [], .standard, ⟨0⟩⟩ ⟨⟨0⟩, []⟩ =
      "static int g();" ∧
    s'.body.pieces.toList.tail.take 8 = ["\n", "// Module m (m.ctl)\n", "\n",
      "namespace m \x7b\n", "\n", "static int f( const int p );\n", "\n",
      "const int x = f( g() );\n"] := by
  refine ⟨((lowerModule (defaultingProgram []) ⟨0⟩).run (new .standard)).2, Prod.ext rfl rfl, ?_,
    rfl, rfl⟩
  obtain ⟨c, hc, init, hinit, hdefault⟩ := rendersInDefault_defaultingProgram []
  exact ⟨c, hc, init, hinit, Expr.rendersCall_iff.mpr (.inr hdefault)⟩

end Session
end ColorLowering
