import ColorLowering.Proofs.Emission.Initializer
import ColorLowering.Proofs.Session.Tables
import ColorLowering.Proofs.Text.Cleaning
import ColorLowering.Proofs.Text.Written

/-!
# The constants of a module in its text

Between its heading and its functions a module has one declaration for each constant that is neither
a literal nor a placeholder, in the order in which they are listed, and then the module initializer,
if any of these constants leaves it a statement. It runs the statements of the constants in the same
order.
-/
namespace ColorLowering

namespace ModuleContext

def declaration (ctx : ModuleContext) (c : Constant) (isConst : Bool) : Declaration :=
  ctx.target.declare (Text.unqualified (ctx.program.symbol c.symbol).name)
    (ctx.program.symbol c.symbol).ty (.object isConst)

def initializer (ctx : ModuleContext) (s : EmissionState) (c : Constant) (strategy : Strategy)
    (init : Expr) : Except Failure Initializer × DefaultTexts :=
  Rendering.initializer strategy (ctx.program.symbol c.symbol).ty init
    (Text.unqualified (ctx.program.symbol c.symbol).name) (ctx.scope s.tables.known false)
    s.tables.defaultTexts

end ModuleContext

namespace Emission

/-- What the constant `c` is declared as when it is reached in the state `s`. A constant with
statements is declared plainly, and no other that has to wait is `const`. -/
inductive DeclaredAs (ctx : ModuleContext) (s : EmissionState) (c : Constant) :
    LoweredConstant → Prop
  | bare : c.init = none → DeclaredAs ctx s c
      ⟨c.symbol, (ctx.declaration c !(ctx.program.symbol c.symbol).isWritable).text, none⟩
  | inline {init : Expr} {strategy : Strategy} {text : String} {texts : DefaultTexts} :
      c.init = some init → ctx.chosenStrategy? s.tables.known c = some strategy →
      ctx.initializer s c strategy init = (.ok (.inline text), texts) → DeclaredAs ctx s c
        ⟨c.symbol, (ctx.declaration c (!(ctx.program.symbol c.symbol).isWritable &&
          !isForced ctx s.tables.known c)).text, some (.inline text)⟩
  | deferred {init : Expr} {strategy : Strategy} {statements : List String}
      {texts : DefaultTexts} :
      c.init = some init → ctx.chosenStrategy? s.tables.known c = some strategy →
      ctx.initializer s c strategy init = (.ok (.deferred statements), texts) →
      DeclaredAs ctx s c ⟨c.symbol, (ctx.declaration c false).text, some (.deferred statements)⟩

variable {ctx : ModuleContext} {s u : EmissionState}

namespace DeclaredAs

variable {c : Constant} {lowered : LoweredConstant} (h : DeclaredAs ctx s c lowered)
include h

theorem symbol : lowered.symbol = c.symbol := by cases h <;> rfl

/-- Where the dialect leaves the type to statements, so is what the constant is given. -/
theorem isDeferred_of_strategy {init : Expr} (hinit : c.init = some init)
    (hty : ctx.target.strategy? (ctx.program.symbol c.symbol).ty = some .deferred) :
    lowered.isDeferred := by
  have chosen : ctx.chosenStrategy? s.tables.known c = some .deferred := by
    rw [ModuleContext.chosenStrategy?, hty, ite_self]
  cases h with
  | bare hbare =>
      rw [hinit] at hbare
      cases hbare
  | inline _ hchosen hrun =>
      rw [chosen, Option.some.injEq] at hchosen
      cases (Rendering.isDeferred_of_initializer hrun).mpr (.inl hchosen.symm)
  | deferred => rfl

end DeclaredAs

theorem declaredAs_of_declaredConstant {c : Constant} {strategy : Strategy}
    {lowered : LoweredConstant} (hchosen : ctx.chosenStrategy? s.tables.known c = some strategy)
    (hrun : declaredConstant c (Text.unqualified (ctx.program.symbol c.symbol).name)
      (ctx.program.symbol c.symbol).ty strategy
      (ctx.declaration c (!(ctx.program.symbol c.symbol).isWritable &&
        !isForced ctx s.tables.known c)).text ctx s = (.ok lowered, u)) :
    DeclaredAs ctx s c lowered := by
  unfold declaredConstant at hrun
  cases hinit : c.init with
  | none =>
      rw [hinit] at hrun
      have free : isForced ctx s.tables.known c = false := by simp [isForced, hinit]
      rw [free, Bool.not_false, Bool.and_true] at hrun
      cases hrun
      exact .bare hinit
  | some init =>
      rw [hinit] at hrun
      obtain ⟨i, t, hi, hrun⟩ := bind_eq_ok.mp hrun
      rw [render, rendering_apply] at hi
      obtain ⟨hresult, rfl⟩ := Prod.mk.inj hi
      cases i with
      | inline text =>
          cases hrun
          exact .inline hinit hchosen (Prod.ext hresult rfl)
      | deferred statements =>
          cases hrun
          exact .deferred hinit hchosen (Prod.ext hresult rfl)

theorem declaredAs_of_constant {c : Constant} {lowered : LoweredConstant}
    (hrun : constant c ctx s = (.ok (some lowered), u)) : DeclaredAs ctx s c lowered := by
  unfold constant at hrun
  obtain ⟨ctx', s₁, hread, hrun⟩ := bind_eq_ok.mp hrun
  cases hread
  obtain ⟨k, s₂, hknown, hrun⟩ := bind_eq_ok.mp hrun
  cases hknown
  dsimp only at hrun
  split at hrun
  · cases hrun
  · cases hchosen : ctx.chosenStrategy? s.tables.known c with
    | none =>
        simp only [ModuleContext.chosenStrategy?] at hchosen
        dsimp only [Target.declare] at hrun
        rw [hchosen] at hrun
        cases hrun
    | some strategy =>
        have chosen := hchosen
        simp only [ModuleContext.chosenStrategy?] at chosen
        dsimp only [Target.declare] at hrun
        rw [chosen] at hrun
        dsimp only at hrun
        split at hrun
        · obtain ⟨_, t, -, hdone⟩ := bind_eq_ok.mp hrun
          cases hdone
        · obtain ⟨lowered', t, hlowered, hdone⟩ := bind_eq_ok.mp hrun
          cases hdone
          exact declaredAs_of_declaredConstant hchosen hlowered

/-- Each declared constant, in order, is declared as it is found after those before it. -/
theorem declaredAs_of_constantList {cs : List Constant} {out : List LoweredConstant}
    (hrun : constantList cs ctx s = (.ok out, u)) :
    List.Forall₂ (fun c lowered => ∃ before after early t, cs = before ++ c :: after ∧
      constantList before ctx s = (.ok early, t) ∧ DeclaredAs ctx t c lowered)
      (cs.filter (ctx.program.declares s.tables.known)) out := by
  induction cs generalizing s out with
  | nil =>
      cases hrun
      exact .nil
  | cons c rest ih =>
      obtain ⟨first, t, others, hfirst, hothers, rfl⟩ := constantList_cons_ok hrun
      have kept := ((literals_frame.within_constant c).done hfirst).1
      have same : ctx.program.declares t.tables.known = ctx.program.declares s.tables.known := by
        funext c
        rw [Program.declares, Program.declares, kept]
      have later := ih hothers
      rw [same] at later
      have others' : List.Forall₂ (fun d lowered => ∃ before after early t,
          c :: rest = before ++ d :: after ∧ constantList before ctx s = (Except.ok early, t) ∧
            DeclaredAs ctx t d lowered)
          (rest.filter (ctx.program.declares s.tables.known)) others := by
        refine later.imp fun d lowered hlater => ?_
        obtain ⟨before, after, early, t', hrest, hearly, hd⟩ := hlater
        refine ⟨c :: before, after, first.toList ++ early, t', by rw [hrest]; rfl, ?_, hd⟩
        exact bind_eq_ok.mpr ⟨first, t, hfirst, bind_eq_ok.mpr ⟨early, t', hearly, rfl⟩⟩
      obtain ⟨rfl, homits⟩ | ⟨lowered, rfl, hliteral, hplaceholder, -⟩ := constant_ok hfirst
      · rw [List.filter_cons_of_neg (by simp [homits.not_declares])]
        exact others'
      · rw [List.filter_cons_of_pos (by simp [Program.declares, hliteral, hplaceholder])]
        exact .cons ⟨[], rest, [], s, rfl, rfl, declaredAs_of_constant hfirst⟩ others'

def initializerText (ns : String) (statements : List String) : String :=
  if statements.isEmpty then ""
  else "struct __ctlcc_InitVals_" ++ ns ++ "\n\x7b\n    __ctlcc_InitVals_" ++ ns ++
    "( void )\n    \x7b\n" ++ String.join (statements.map (Text.Writer.indentLines 2)) ++
    "    \x7d\n\x7d;\nstatic __ctlcc_InitVals_" ++ ns ++ " __ctlcc_GlobalInitializer_" ++ ns ++
    ";\n\n"

theorem not_newline_mem_namespaceOf (p : Program) (m : ModuleId) :
    '\n' ∉ (p.namespaceOf m).toList := by
  intro h
  rw [Program.namespaceOf, Text.clean, String.toList_ofList] at h
  exact absurd (Text.isWordChar_of_mem_cleanChars h) (by decide)

theorem text_writeInitializer {ns : String} (hns : '\n' ∉ ns.toList) (statements : List String)
    {w : Text.Writer} (hw : w.level = 0) :
    (writeInitializer ns statements w).text = w.text ++ initializerText ns statements := by
  have oneLine (level : Nat) (text : String) (htext : '\n' ∉ text.toList) (hne : text ≠ "") :=
    Text.Writer.indentLines_of_not_mem htext hne level
  unfold writeInitializer initializerText
  split
  · simp
  · have structLine := oneLine 0 ("struct __ctlcc_InitVals_" ++ ns) (by simp [hns])
      (by simp)
    have constructorLine := oneLine 1 ("__ctlcc_InitVals_" ++ ns ++ "( void )")
      (by simp [hns]) (by simp)
    have instanceLine := oneLine 0 ("static __ctlcc_InitVals_" ++ ns ++
      " __ctlcc_GlobalInitializer_" ++ ns ++ ";") (by simp [hns]) (by simp)
    have openLine (level : Nat) := oneLine level "\x7b" (by decide) (by decide)
    have margins : Text.Writer.margin 0 = [] ∧ Text.Writer.margin 1 = [' ', ' ', ' ', ' '] :=
      ⟨rfl, rfl⟩
    simp only [Text.Writer.blank, Text.Writer.text_raw, Text.Writer.text_line,
      Text.Writer.closeBrace, Text.Writer.text_closeBraceWith, Text.Writer.text_foldl_line,
      Text.Writer.text_openBrace, Text.Writer.level_line, Text.Writer.level_openBrace,
      Text.Writer.level_foldl_line, Text.Writer.level_closeBraceWith, hw, Nat.zero_add,
      Nat.reduceAdd, Nat.reduceSub, structLine, constructorLine, instanceLine, openLine, margins]
    apply String.ext
    simp

theorem text_of_constantList {cs : List Constant} {ctx : ModuleContext} {s t : EmissionState}
    {lowered : List LoweredConstant} (hlist : constantList cs ctx s = (.ok lowered, t))
    (hs : s.body.level = 0) :
    (writeInitializer (ctx.program.namespaceOf ctx.module)
      (lowered.flatMap LoweredConstant.statements)
      (if cs.isEmpty then t.body else t.body.blank)).text =
    s.body.text ++ String.join (lowered.map fun c => Text.Writer.indentLines 0 c.line) ++
      (if cs.isEmpty then "" else "\n") ++
      initializerText (ctx.program.namespaceOf ctx.module)
        (lowered.flatMap LoweredConstant.statements) := by
  have written := body_of_constantList hlist
  have blankLine (w : Text.Writer) (hw : w.level = 0) :
      (if cs.isEmpty then w else w.blank).level = 0 ∧
        (if cs.isEmpty then w else w.blank).text = w.text ++ if cs.isEmpty then "" else "\n" := by
    split
    · exact ⟨hw, by simp⟩
    · exact ⟨hw, w.text_raw "\n"⟩
  obtain ⟨level, text⟩ := blankLine t.body (by simp [written, hs])
  rw [text_writeInitializer (not_newline_mem_namespaceOf ctx.program ctx.module) _ level, text,
    written, Text.Writer.text_foldl_line, hs, List.map_map]
  rfl

theorem count_of_constantList {cs : List Constant} {ctx : ModuleContext} {s t : EmissionState}
    {lowered : List LoweredConstant} (hlist : constantList cs ctx s = (.ok lowered, t))
    (honce : (cs.map Constant.symbol).Nodup) {c : Constant} (hc : c ∈ cs) :
    (lowered.map LoweredConstant.symbol).count c.symbol =
      if ctx.program.declares s.tables.known c then 1 else 0 := by
  rw [symbols_of_constantList hlist]
  split
  · rename_i hdeclared
    apply List.count_eq_one_of_mem (honce.sublist (List.filter_sublist.map _))
    exact List.mem_map_of_mem (List.mem_filter.mpr ⟨hc, hdeclared⟩)
  · rename_i homitted
    rw [List.count_eq_zero]
    intro hmem
    obtain ⟨d, hd, heq⟩ := List.mem_map.mp hmem
    obtain ⟨hd, hdeclared⟩ := List.mem_filter.mp hd
    have one : d = c := List.inj_on_of_nodup_map honce hd hc heq
    exact homitted (one ▸ hdeclared)

end Emission

namespace Session

/-- The constants of the module as they stand in the text that `s'` has after that of `s`, between
the heading that ends in `start` and the functions that begin in `closed`. -/
structure WritesConstants (p : Program) (m : ModuleId) (s s' : Session)
    (start closed : EmissionState) (lowered : List LoweredConstant) : Prop where
  headed : Emission.heading (p.module m) ⟨p, s.target, m⟩ s.emissionState = (.ok (), start)
  declared : List.Forall₂ (fun c lowered => ∃ before after early t,
    (p.module m).constants = before ++ c :: after ∧
    Emission.constantList before ⟨p, s.target, m⟩ start = (.ok early, t) ∧
    Emission.DeclaredAs ⟨p, s.target, m⟩ t c lowered)
    ((p.module m).constants.filter (p.declares s'.tables.known)) lowered
  text : closed.body.text = start.body.text ++
    String.join (lowered.map fun c => Text.Writer.indentLines 0 c.line) ++
    (if (p.module m).constants.isEmpty then "" else "\n") ++
    Emission.initializerText (p.namespaceOf m) (lowered.flatMap LoweredConstant.statements)
  ended : Emission.ending (p.module m) ⟨p, s.target, m⟩ closed = (.ok (), s'.emissionState)

/-- The passes over the constants of a module that is lowered, and what they write. -/
theorem writesConstants_of_run {p : Program} {m : ModuleId} {s s' : Session} (hs : s.AtMargin)
    (hrun : (lowerModule p m).run s = (.ok (), s')) :
    ∃ surveyed start t closed lowered,
      Emission.surveyConstants (p.module m).constants ⟨p, s.target, m⟩ s.emissionState =
        (.ok (), surveyed) ∧
      start.tables.known = surveyed.tables.known ∧
      Emission.constantList (p.module m).constants ⟨p, s.target, m⟩ start = (.ok lowered, t) ∧
      s'.tables.known = t.tables.known ∧
      p.declares s'.tables.known = p.declares start.tables.known ∧
      WritesConstants p m s s' start closed lowered := by
  obtain ⟨out, -, hout, rfl⟩ | ⟨_, _, hfailed, -, -⟩ := lowerModule_cases hrun
  · obtain ⟨_, start, hheading, hrest⟩ := Emission.bind_eq_ok.mp hout
    obtain ⟨lowered, _, hconstants, hrest⟩ := Emission.bind_eq_ok.mp hrest
    obtain ⟨_, closed, hinit, hending⟩ := Emission.bind_eq_ok.mp hrest
    obtain ⟨t, hlist, rfl⟩ := Emission.constants_ok hconstants
    obtain ⟨surveyed, hsurvey, hstart⟩ := Emission.heading_surveys hheading
    rw [Emission.moduleInitializer_apply] at hinit
    cases hinit
    have ended := (Emission.known_frame.within_ending _).done hending
    have known : out.tables.known = t.tables.known := ended
    have literals := ((Emission.literals_frame.within_constantList _).done hlist).1
    have same : p.declares out.tables.known = p.declares start.tables.known := by
      funext c
      rw [Program.declares, Program.declares, known, literals]
    have left : start.body.level = 0 :=
      ((growth_frame.within_heading _).done hheading).2.2.trans hs.2
    have declared := Emission.declaredAs_of_constantList hlist
    refine ⟨surveyed, start, t, _, lowered, hsurvey, hstart, hlist, known, same, hheading, ?_,
      Emission.text_of_constantList hlist left, hending⟩
    rw [same]
    exact declared
  · cases hfailed

/-- In a module that is lowered every constant that is neither a literal nor a placeholder has one
declaration, in the order of the constants, and no other has any. The module initializer follows
them, if they leave it any statements, and runs these statements in the same order. -/
theorem constants_written_in_order {p : Program} (hp : p.OwnsConstants) {target : Target}
    {steps : List Step} {m : ModuleId} {s' : Session}
    (hrun : (lowerModule p m).run ((new target).after p steps) = (.ok (), s')) :
    ∃ start closed lowered,
      WritesConstants p m ((new target).after p steps) s' start closed lowered ∧
      ∀ c ∈ (p.module m).constants, (lowered.map LoweredConstant.symbol).count c.symbol =
        if p.declares s'.tables.known c then 1 else 0 := by
  have margin := atMargin_after p (atMargin_new target) steps
  obtain ⟨_, start, _, closed, lowered, -, -, hlist, -, hsame, hwrites⟩ :=
    writesConstants_of_run margin hrun
  refine ⟨start, closed, lowered, hwrites, fun c hc => ?_⟩
  rw [hsame]
  exact Emission.count_of_constantList hlist (hp.once m) hc

def sectionedProgram : Program where
  symbols := #[⟨"k", some ⟨0⟩, .var (.scalar .int) false⟩,
    ⟨"f$p", some ⟨0⟩, .var (.scalar .int) false⟩, ⟨"x", some ⟨0⟩, .var (.scalar .int) false⟩,
    ⟨"f", some ⟨0⟩, .fn [] (.scalar .int)⟩]
  modules := #[⟨"m", "m.ctl", [], [⟨⟨0⟩, some (.literal (.scalar .int) (.scalar (.int 3)))⟩,
    ⟨⟨1⟩, some (.call (.scalar .int) (.function ⟨3⟩ []) [])⟩,
    ⟨⟨2⟩, some (.call (.scalar .int) (.function ⟨3⟩ []) [])⟩], [⟨⟨3⟩, []⟩]⟩]

theorem sectioned_constants_written : ∃ s' start closed lowered,
    (lowerModule sectionedProgram ⟨0⟩).run (new ⟨.legacy, .single, "Imath"⟩) = (.ok (), s') ∧
    WritesConstants sectionedProgram ⟨0⟩ (new ⟨.legacy, .single, "Imath"⟩) s' start closed
      lowered ∧
    (lowered.map LoweredConstant.symbol).count ⟨1⟩ = 0 ∧
    (lowered.map LoweredConstant.symbol).count ⟨2⟩ = 1 := by
  have owns : sectionedProgram.OwnsConstants := by
    constructor <;> rintro ⟨_ | n⟩ <;> simp [sectionedProgram, Program.module, Program.symbol]
  have run : (lowerModule sectionedProgram ⟨0⟩).run (new ⟨.legacy, .single, "Imath"⟩) =
      (.ok (), ((lowerModule sectionedProgram ⟨0⟩).run (new ⟨.legacy, .single, "Imath"⟩)).2) :=
    Prod.ext rfl rfl
  obtain ⟨start, closed, lowered, writes, counts⟩ :=
    @constants_written_in_order _ owns ⟨.legacy, .single, "Imath"⟩ [] ⟨0⟩ _ run
  refine ⟨_, start, closed, lowered, run, writes, ?_, ?_⟩
  · exact counts ⟨⟨1⟩, _⟩ (.tail _ (.head _))
  · exact counts ⟨⟨2⟩, _⟩ (.tail _ (.tail _ (.head _)))

end Session
end ColorLowering
