import ColorLowering.Proofs.Agreement.Emission
import ColorLowering.Proofs.Defaults.Sharing
import ColorLowering.Proofs.Emission.Heading

/-!
# Modules that agree

A survey agrees where each initializer is built from literals on both sides or on neither and has
the same value; a module agrees where its survey, its constants and its functions do.
-/
namespace ColorLowering
namespace Emission

/-- Under `K` surveying the constant takes the same course in both contexts. The initializer of a
literal constant is rendered, and then all that it names are literals. -/
structure SameSurvey (strict : Prop) (K : Classification → Classification → Prop)
    (T : DefaultTexts → DefaultTexts → Prop) (ctx ctx' : ModuleContext) (symbol : SymbolId)
    (init : Expr) : Prop where
  literal : ∀ {k k'}, K k k' → init.isLiteral k.literals = init.isLiteral k'.literals
  folded : ∀ {k k'}, K k k' → ctx.folded? k symbol init = ctx'.folded? k' symbol init
  lookups : SameLookups strict (fun k k' => K k k' ∧ init.isLiteral k.literals) T ctx ctx' false
    init

variable {strict : Prop} {ctx ctx' : ModuleContext} {base base' : EmissionState}
  {K : Classification → Classification → Prop} {T : DefaultTexts → DefaultTexts → Prop}

theorem surveyConstants_append (cs ds : List Constant) :
    surveyConstants (cs ++ ds) = (do surveyConstants cs; surveyConstants ds) := by
  induction cs with
  | nil => rfl
  | cons c rest ih =>
      rw [List.cons_append, surveyConstants, ih, surveyConstants, bind_assoc]

section
variable (hctx : ctx.Alike ctx')
  (hnames : strict → ∀ symbol, (ctx.program.symbol symbol).name =
    (ctx'.program.symbol symbol).name)
  (hK : ctx.Steady K)
include hctx hK

theorem agrees_surveyCallees {symbol : SymbolId} (hsymbol : ctx.Lists symbol) (init : Expr)
    (hplaceholder : (ctx.program.symbol symbol).isPlaceholder =
      (ctx'.program.symbol symbol).isPlaceholder) :
    Agrees strict (base.Abreast base' K T) (base.Abreast base' K T) ctx ctx'
      (surveyCallees symbol init) := by
  intro s s' hs
  have callees : K (s.tables.known.addCallees (ctx.homeCallees init))
      (s'.tables.known.addCallees (ctx.homeCallees init)) :=
    hK.callees (fun symbol h => (List.mem_filter.mp h).2) hs.known
  have same : ctx'.homeCallees init = ctx.homeCallees init := by
    rw [ModuleContext.homeCallees, ModuleContext.homeCallees, hctx.isHome]
  simp only [surveyCallees, bind_apply, read_apply, known_apply, same, ← hplaceholder]
  by_cases h : ((ctx.homeCallees init).isEmpty || (ctx.program.symbol symbol).isPlaceholder) = true
  · simp only [if_pos h, setKnown_apply]
    exact ⟨_, rfl, { hs with known := callees }⟩
  · simp only [if_neg h, setKnown_apply]
    exact ⟨_, rfl, { hs with known := hK.needsModuleInit hsymbol callees }⟩

include hnames

theorem agrees_surveyLiteral {symbol : SymbolId} (hsymbol : ctx.Lists symbol) {init : Expr}
    (hsame : SameSurvey strict K T ctx ctx' symbol init) :
    Agrees strict (base.Abreast base' (fun k k' => K k k' ∧ init.isLiteral k.literals) T)
      (base.Abreast base' K T) ctx ctx' (surveyLiteral symbol init) := by
  intro s s' hs
  obtain ⟨hk, hliteral⟩ := hs.known
  have ty : (ctx'.program.symbol symbol).ty = (ctx.program.symbol symbol).ty := by
    rw [Symbol.ty, Symbol.ty, hctx.kind]
  rw [surveyLiteral_apply, surveyLiteral_apply, ← hsame.folded hk, ty]
  cases ctx.folded? s.tables.known symbol init with
  | some value => exact ⟨_, rfl, { hs with known := hK.literal value.text (some value) hsymbol hk }⟩
  | none =>
      have rendered := Rendering.agrees_renderAs (scope_alike hctx hnames s.tables.known
        s'.tables.known false) (hsame.lookups.named hs.known) (hsame.lookups.filled hs.known)
        (ctx.program.symbol symbol).ty _ _ hs.texts
      simp only [render, bind_apply, rendering_apply]
      cases hresult : (init.renderAs (ctx.program.symbol symbol).ty
          (ctx.scope s.tables.known false) s.tables.defaultTexts).1 with
      | ok text =>
          obtain ⟨heq, htexts⟩ := rendered (.inr ⟨text, hresult⟩)
          rw [← heq, hresult]
          exact ⟨_, rfl, { hs with
            known := hK.literal text none hsymbol hk
            texts := htexts }⟩
      | error e =>
          intro hstrict
          obtain ⟨heq, -⟩ := rendered (.inl hstrict)
          rw [← heq, hresult]
          exact ⟨_, rfl⟩

theorem agrees_surveyConstant {c : Constant} (hc : ctx.Lists c.symbol)
    (hsame : ∀ init, c.init = some init → SameSurvey strict K T ctx ctx' c.symbol init)
    (hplaceholder : (ctx.program.symbol c.symbol).isPlaceholder =
      (ctx'.program.symbol c.symbol).isPlaceholder) :
    Agrees strict (base.Abreast base' K T) (base.Abreast base' K T) ctx ctx'
      (surveyConstant c) := by
  unfold surveyConstant
  cases hinit : c.init with
  | none => exact .pure _
  | some init =>
      have same := hsame init hinit
      intro s s' hs
      simp only [bind_apply, known_apply, ← same.literal hs.known]
      by_cases h : (!init.isAggregate && init.isLiteral s.tables.known.literals) = true
      · simp only [if_pos h]
        rw [Bool.and_eq_true] at h
        exact agrees_surveyLiteral hctx hnames hK hc same s s' { hs with known := ⟨hs.known, h.2⟩ }
      · simp only [if_neg h]
        exact agrees_surveyCallees hctx hK hc init hplaceholder s s' hs

theorem agrees_surveyConstants {cs : List Constant}
    (hlisted : ∀ c ∈ cs, ctx.Lists c.symbol)
    (hcs : ∀ c ∈ cs, (ctx.program.symbol c.symbol).isPlaceholder =
        (ctx'.program.symbol c.symbol).isPlaceholder ∧
      ∀ init, c.init = some init → SameSurvey strict K T ctx ctx' c.symbol init) :
    Agrees strict (base.Abreast base' K T) (base.Abreast base' K T) ctx ctx'
      (surveyConstants cs) := by
  induction cs with
  | nil => exact .pure _
  | cons c rest ih =>
      obtain ⟨hplaceholder, hsame⟩ := hcs c List.mem_cons_self
      exact (agrees_surveyConstant hctx hnames hK (hlisted c List.mem_cons_self) hsame
        hplaceholder).bind fun _ => ih (fun d hd => hlisted d (List.mem_cons_of_mem _ hd))
          fun d hd => hcs d (List.mem_cons_of_mem _ hd)

end

/-- A module agrees where its parts do, each in the states that the parts before it lead to. -/
theorem agrees_module {m : Module} {Renders Renders' : Bool → Expr → Prop}
    {Same Same' : Classification → Classification → Prop}
    {Before Surveyed Lowered : EmissionState → EmissionState → Prop}
    (hsurvey : Agrees strict Before Surveyed ctx ctx' (surveyConstants m.constants))
    (hheading : StatementProperty ctx ctx' Same Renders (Agrees strict Surveyed Surveyed ctx ctx'))
    (hdeclared : ∀ f ∈ m.functions, SameFunction ctx ctx' Same f.symbol)
    (hconstants : Agrees strict Surveyed Lowered ctx ctx' (constants m.constants))
    (hending : FunctionProperty ctx ctx' Same' Renders' (Agrees strict Lowered Lowered ctx ctx'))
    (hfunctions : ∀ f ∈ m.functions, SameFunction ctx ctx' Same' f.symbol)
    (hlocals : ∀ f ∈ m.functions, ∀ symbol ∈ Stmt.localsAll f.body, ctx.SameSymbol ctx' symbol)
    (hbodies : ∀ f ∈ m.functions, ∀ e ∈ Stmt.exprsAll f.body, Renders' false e) :
    Agrees strict Before Lowered ctx ctx' (module m) := by
  unfold module
  apply Agrees.bind
  · rw [heading_eq]
    exact hsurvey.bind fun _ => (hheading.opening m).bind fun _ =>
      hheading.forwardDeclarations hdeclared
  intro _
  apply hconstants.bind
  intro lowered
  apply (hending.moduleInitializer _).bind
  intro _
  exact hending.ending hfunctions hlocals hbodies

/-- A relation that outlasts all that the module enters is kept by the whole module. -/
theorem agrees_module_of_steady (hctx : ctx.Alike ctx')
    (hnames : strict → ∀ symbol, (ctx.program.symbol symbol).name =
      (ctx'.program.symbol symbol).name)
    (hK : ctx.Steady K)
    (hrenders : ∀ {portable e}, ctx.program.RendersAt ctx.module portable e →
      SameLookups strict K T ctx ctx' portable e)
    (hsurvey : ∀ c ∈ (ctx.program.module ctx.module).constants, ∀ init, c.init = some init →
      SameSurvey strict K T ctx ctx' c.symbol init)
    (hconstants : ∀ c ∈ (ctx.program.module ctx.module).constants, SameConstant ctx ctx' K c)
    (hfunctions : ∀ f ∈ (ctx.program.module ctx.module).functions,
      SameFunction ctx ctx' K f.symbol)
    (hlocals : ∀ f ∈ (ctx.program.module ctx.module).functions,
      ∀ symbol ∈ Stmt.localsAll f.body, ctx.SameSymbol ctx' symbol) :
    Agrees strict (base.Abreast base' K T) (base.Abreast base' K T) ctx ctx'
      (module (ctx.program.module ctx.module)) := by
  have listed : ∀ c ∈ (ctx.program.module ctx.module).constants, ctx.Lists c.symbol :=
    fun c hc => ⟨c, hc, rfl⟩
  have functions : FunctionProperty ctx ctx' K (ctx.program.RendersAt ctx.module)
      (Agrees strict (base.Abreast base' K T) (base.Abreast base' K T) ctx ctx') :=
    agrees_functions hctx hnames hrenders
  apply agrees_module _ functions.toStatementProperty hfunctions _ functions hfunctions hlocals
  · exact fun f hf e he => .body hf he
  · exact agrees_surveyConstants hctx hnames hK listed fun c hc =>
      ⟨by rw [(hconstants c hc).same], hsurvey c hc⟩
  · exact (agrees_constants hctx hnames hK hrenders).constants hconstants fun c hc =>
      ⟨listed c hc, fun init hinit => .constant hc hinit⟩

end Emission
end ColorLowering
