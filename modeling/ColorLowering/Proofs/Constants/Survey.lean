import ColorLowering.Proofs.Emission.Emitters

/-!
# What surveying constants does

A constant without initializer is passed over. One that is built from literals becomes a literal,
under the text of its value or of its initializer; of any other the callees at home are noted.
-/
namespace ColorLowering

def ModuleContext.folded? (ctx : ModuleContext) (known : Classification) (symbol : SymbolId)
    (init : Expr) : Option Value :=
  (init.value? ctx.target.precision known.folded).bind
    (·.convertTo? ctx.target.precision (ctx.program.symbol symbol).ty)

def ModuleContext.verbatim (ctx : ModuleContext) (s : EmissionState) (symbol : SymbolId)
    (init : Expr) : Except Failure String × DefaultTexts :=
  init.renderAs (ctx.program.symbol symbol).ty (ctx.scope s.tables.known false)
    s.tables.defaultTexts

namespace Emission

inductive Surveys (ctx : ModuleContext) (c : Constant) (s : EmissionState) : EmissionState → Prop
  | bare : c.init = none → Surveys ctx c s s
  | folded {init : Expr} {value : Value} : c.init = some init → init.isAggregate = false →
      init.isLiteral s.tables.known.literals = true →
      ctx.folded? s.tables.known c.symbol init = some value →
      Surveys ctx c s (s.withKnown (s.tables.known.addLiteral c.symbol value.text (some value)))
  | verbatim {init : Expr} {text : String} {texts : DefaultTexts} : c.init = some init →
      init.isAggregate = false → init.isLiteral s.tables.known.literals = true →
      ctx.folded? s.tables.known c.symbol init = none →
      ctx.verbatim s c.symbol init = (.ok text, texts) →
      Surveys ctx c s ((s.withTexts texts).withKnown (s.tables.known.addLiteral c.symbol text none))
  | calling {init : Expr} : c.init = some init →
      (!init.isAggregate && init.isLiteral s.tables.known.literals) = false →
      Surveys ctx c s (s.withKnown (s.tables.known.addCallees (ctx.homeCallees init)))
  | waiting {init : Expr} : c.init = some init →
      (!init.isAggregate && init.isLiteral s.tables.known.literals) = false →
      Surveys ctx c s (s.withKnown
        ((s.tables.known.addCallees (ctx.homeCallees init)).addNeedsModuleInit c.symbol))

variable {ctx : ModuleContext} {c : Constant} {s t : EmissionState}

theorem surveyLiteral_apply (symbol : SymbolId) (init : Expr) :
    surveyLiteral symbol init ctx s = (match ctx.folded? s.tables.known symbol init with
      | some value => setKnown (s.tables.known.addLiteral symbol value.text (some value))
      | none => render (init.renderAs (ctx.program.symbol symbol).ty) >>= fun text =>
          setKnown (s.tables.known.addLiteral symbol text none)) ctx s := by
  simp only [surveyLiteral, bind_apply, read_apply, known_apply]
  rfl

theorem surveyLiteral_ok {init : Expr} (hinit : c.init = some init)
    (haggregate : init.isAggregate = false)
    (hliteral : init.isLiteral s.tables.known.literals = true)
    (hrun : surveyLiteral c.symbol init ctx s = (.ok (), t)) : Surveys ctx c s t := by
  rw [surveyLiteral_apply] at hrun
  cases hvalue : ctx.folded? s.tables.known c.symbol init with
  | some value =>
      rw [hvalue] at hrun
      cases hrun
      exact .folded hinit haggregate hliteral hvalue
  | none =>
      rw [hvalue] at hrun
      obtain ⟨text, u, htext, hrun⟩ := bind_eq_ok.mp hrun
      rw [render, rendering_apply] at htext
      obtain ⟨hresult, rfl⟩ := Prod.mk.inj htext
      cases hrun
      exact .verbatim hinit haggregate hliteral hvalue (Prod.ext hresult rfl)

theorem surveyConstant_ok (hrun : surveyConstant c ctx s = (.ok (), t)) : Surveys ctx c s t := by
  unfold surveyConstant at hrun
  cases hinit : c.init with
  | none =>
      rw [hinit] at hrun
      cases hrun
      exact .bare hinit
  | some init =>
      rw [hinit] at hrun
      obtain ⟨k, u, hknown, hrun⟩ := bind_eq_ok.mp hrun
      cases hknown
      cases hliteral : !init.isAggregate && init.isLiteral s.tables.known.literals with
      | true =>
          rw [hliteral, if_pos rfl] at hrun
          rw [Bool.and_eq_true, Bool.not_eq_true'] at hliteral
          exact surveyLiteral_ok hinit hliteral.1 hliteral.2 hrun
      | false =>
          rw [hliteral] at hrun
          simp only [surveyCallees, Bool.false_eq_true, if_false, bind_apply, read_apply,
            known_apply] at hrun
          split at hrun
          · cases hrun
            exact .calling hinit hliteral
          · cases hrun
            exact .waiting hinit hliteral

theorem surveyConstants_cons_ok {rest : List Constant}
    (hrun : surveyConstants (c :: rest) ctx s = (.ok (), t)) :
    ∃ u, Surveys ctx c s u ∧ surveyConstants rest ctx u = (.ok (), t) := by
  obtain ⟨_, u, hfirst, hrest⟩ := bind_eq_ok.mp hrun
  exact ⟨u, surveyConstant_ok hfirst, hrest⟩

end Emission
end ColorLowering
