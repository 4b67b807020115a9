import ColorLowering.Proofs.Defaults.Transparent

/-!
# Kept defaults are reused as they are

While a module that shares its defaults is lowered, each text kept for it is what the default gives
anew, and so the module is lowered as if no text was kept. A constant that is entered changes none
of them: the defaults in use by then refer to constants entered before.
-/
namespace ColorLowering

def DefaultTexts.KeptFor (done : List ModuleId) (texts : DefaultTexts) : Prop :=
  ∀ id m text, texts.get? (id, m) = some text → m ∈ done

namespace ModuleContext

variable {ctx : ModuleContext} {done : List ModuleId} {settled settled' : SymbolId → Prop}
  {known known' : Classification} {texts : DefaultTexts}

/-- The kept text of a default in the module of `ctx` is what the default gives anew. It refers to
settled symbols. -/
def Gives (ctx : ModuleContext) (settled : SymbolId → Prop) (known : Classification) (id : ExprId)
    (text : String) : Prop :=
  ∃ portable ty default, ctx.program.FillsAt ctx.module portable ty id default ∧
    (∀ symbol ∈ default.referred, settled symbol) ∧
    (ctx.scope known portable).anew ty default = .ok text

/-- What holds of the tables while the module of `ctx` is lowered after the modules `done`. What is
known of the symbols that are settled does not change any more. -/
structure Reuses (ctx : ModuleContext) (done : List ModuleId) (settled : SymbolId → Prop)
    (known : Classification) (texts : DefaultTexts) : Prop where
  literals : ∀ c ∈ (ctx.program.module ctx.module).constants, c.isLiteral →
    known.literals.contains c.symbol
  kept : ∀ id m text, texts.get? (id, m) = some text →
    m ∈ done ∨ m = ctx.module ∧ ctx.Gives settled known id text

namespace Reuses

theorem settle (h : ctx.Reuses done settled known texts)
    (hsettled : ∀ symbol, settled symbol → settled' symbol) :
    ctx.Reuses done settled' known texts where
  literals := h.literals
  kept id m text htext := by
    obtain hbefore | ⟨rfl, portable, ty, default, hfills, hreferred, hanew⟩ :=
      h.kept id m text htext
    · exact .inl hbefore
    · exact .inr ⟨rfl, portable, ty, default, hfills,
        fun symbol hsymbol => hsettled symbol (hreferred symbol hsymbol), hanew⟩

theorem change (h : ctx.Reuses done settled known texts)
    (hsame : ∀ symbol, settled symbol → known.SameReference known' symbol)
    (hliterals : known'.literals = known.literals) : ctx.Reuses done settled known' texts where
  literals c hc hliteral := by
    rw [hliterals]
    exact h.literals c hc hliteral
  kept id m text htext := by
    obtain hbefore | ⟨rfl, portable, ty, default, hfills, hreferred, hanew⟩ :=
      h.kept id m text htext
    · exact .inl hbefore
    · refine .inr ⟨rfl, portable, ty, default, hfills, hreferred, ?_⟩
      rw [← hanew]
      symm
      apply Scope.anew_congr (ctx.sameModule known known' portable portable)
      · intro symbol hsymbol
        exact Scope.resolve_congr (ctx.sameModule _ _ _ _) rfl
          (hsame symbol (hreferred symbol hsymbol))
      · intro symbol hsymbol
        exact (hsame symbol (hreferred symbol hsymbol)).defaults

theorem addGlobal (h : ctx.Reuses done settled known texts) {symbol : SymbolId}
    (hsymbol : ¬settled symbol) (strategy : Strategy) :
    ctx.Reuses done settled (known.addGlobal symbol strategy) texts := by
  refine h.change (fun other hother => ⟨rfl, ?_, rfl⟩) rfl
  have apart : other ≠ symbol := fun heq => hsymbol (heq ▸ hother)
  simp [Classification.addGlobal, apart]

theorem addDefault (h : ctx.Reuses done settled known texts) {symbol : SymbolId}
    (hsymbol : ¬settled symbol) (text : String) :
    ctx.Reuses done settled (known.addDefault symbol text) texts := by
  refine h.change (fun other hother => ⟨rfl, rfl, ?_⟩) rfl
  have apart : other ≠ symbol := fun heq => hsymbol (heq ▸ hother)
  simp [Classification.addDefault, Table.get?_insert, apart]

theorem anew_eq (hp : ctx.program.SharesDefaults ctx.module)
    (h : ctx.Reuses done settled known texts) {portable portable' : Bool} {ty ty' : Ty}
    {id : ExprId} {default default' : Expr}
    (hfills : ctx.program.FillsAt ctx.module portable ty id default)
    (hfills' : ctx.program.FillsAt ctx.module portable' ty' id default') :
    (ctx.scope known portable).anew ty default = (ctx.scope known portable').anew ty' default' := by
  obtain ⟨rfl, rfl⟩ := hp.alike hfills hfills'
  by_cases hplace : portable = portable'
  · rw [hplace]
  · apply Scope.anew_congr (ctx.sameModule known known portable portable')
    · intro symbol hsymbol
      apply Scope.resolve_congr_of_foreign (ctx.sameModule known known portable portable') rfl
      intro hhome
      have both : ctx.program.FillsAt ctx.module true ty id default ∧
          ctx.program.FillsAt ctx.module false ty id default := by
        match portable, portable', hplace with
        | true, false, _ => exact ⟨hfills, hfills'⟩
        | false, true, _ => exact ⟨hfills', hfills⟩
        | true, true, h => exact absurd rfl h
        | false, false, h => exact absurd rfl h
      obtain ⟨c, hc, rfl, hliteral⟩ := hp.apart both.1 both.2 symbol hsymbol hhome
      exact h.literals c hc hliteral
    · intro _ _
      rfl

end Reuses
end ModuleContext

namespace Emission

open ModuleContext

variable {ctx : ModuleContext} {done : List ModuleId} {settled : SymbolId → Prop}

theorem Surveys.literal {c : Constant} {s t : EmissionState} (h : Surveys ctx c s t)
    (hc : c.isLiteral) : t.tables.known.literals.contains c.symbol := by
  have literal : ∀ init, c.init = some init →
      (!init.isAggregate && init.isLiteral s.tables.known.literals) = false → False := by
    intro init hinit hother
    rw [Constant.isLiteral, hinit, Option.any_some, Bool.and_eq_true] at hc
    rw [hc.1, Expr.isLiteral_mono (by simp) init hc.2] at hother
    cases hother
  cases h with
  | bare hinit => rw [Constant.isLiteral, hinit] at hc; cases hc
  | folded _ _ _ _ => simp [EmissionState.withKnown, Classification.addLiteral]
  | verbatim _ _ _ _ _ => simp [EmissionState.withKnown, Classification.addLiteral]
  | calling hinit hother => exact (literal _ hinit hother).elim
  | waiting hinit hother => exact (literal _ hinit hother).elim

theorem literals_of_isLiteral {cs : List Constant} {s t : EmissionState}
    (hrun : surveyConstants cs ctx s = (.ok (), t)) :
    ∀ c ∈ cs, c.isLiteral → t.tables.known.literals.contains c.symbol := by
  induction cs generalizing s with
  | nil => simp
  | cons first rest ih =>
      obtain ⟨u, hfirst, hrest⟩ := surveyConstants_cons_ok hrun
      intro c hc hliteral
      rcases List.mem_cons.mp hc with rfl | hc
      · exact (literals_of_surveyConstants hrest c.symbol).1 (hfirst.literal hliteral)
      · exact ih hrest c hc hliteral

/-- The module of `ctx` renders the expression, and the defaults that it fills in refer to settled
symbols. -/
def RendersSettled (ctx : ModuleContext) (settled : SymbolId → Prop) (portable : Bool) (e : Expr) :
    Prop :=
  ctx.program.RendersAt ctx.module portable e ∧ ∀ ty id default, e.Fills ty id default →
    ∀ symbol ∈ default.referred, settled symbol

section
variable (hp : ctx.program.SharesDefaults ctx.module) (hdone : ctx.module ∉ done)
include hp hdone

theorem honest_of_rendersSettled {portable : Bool} {e : Expr}
    (he : RendersSettled ctx settled portable e) (known : Classification) :
    ∀ slot ∈ e.filled, slot.Honest (ctx.Reuses done settled known) (ctx.scope known portable)
      (ctx.scope known portable) := by
  obtain ⟨hplace, hsettled⟩ := he
  intro slot hslot
  cases slot with
  | required => trivial
  | optional param ty id default =>
      rw [Slot.Honest]
      cases hplain : default.plainName? with
      | some symbol => rfl
      | none =>
          have fills : e.Fills ty id default := ⟨hplain, param, hslot⟩
          have place : ctx.program.FillsAt ctx.module portable ty id default := ⟨e, hplace, fills⟩
          intro texts htexts
          constructor
          · intro text htext
            obtain hbefore | ⟨-, _, _, _, hfills, -, hanew⟩ := htexts.kept id ctx.module text htext
            · exact absurd hbefore hdone
            · rw [htexts.anew_eq hp place hfills]
              exact hanew
          · intro text hanew
            refine { htexts with kept := ?_ }
            intro other m found hfound
            obtain ⟨heq, rfl⟩ | hfound := DefaultTexts.get?_insert hfound
            · obtain ⟨rfl, rfl⟩ := Prod.mk.inj heq
              exact .inr ⟨rfl, portable, ty, default, place, hsettled ty other default fills, hanew⟩
            · exact htexts.kept other m found hfound

theorem reuses_property : StatementProperty ctx ctx Eq (RendersSettled ctx settled)
    (Transparent (ctx.Reuses done settled) (ctx.Reuses done settled) ctx) :=
  transparent_property (honest_of_rendersSettled hp hdone)

theorem reuses_functionProperty : FunctionProperty ctx ctx Eq (RendersSettled ctx settled)
    (Transparent (ctx.Reuses done settled) (ctx.Reuses done settled) ctx) where
  toStatementProperty := reuses_property hp hdone
  publish name head symbol s hs := ⟨rfl, fun _ _ h => by cases h; exact hs⟩

theorem follows_placeholder {portable : Bool} {init : Expr}
    (he : RendersSettled ctx settled portable init) (name : String) (strategy : Strategy) (ty : Ty)
    (known : Classification) : Rendering.Follows (ctx.Reuses done settled known)
      (ctx.scope known portable) (ctx.scope known portable)
      (Rendering.placeholder name strategy ty init) :=
  Rendering.follows_placeholder (ctx.sameModule known known portable portable) (fun _ _ => rfl)
    (honest_of_rendersSettled hp hdone he known) name strategy ty

theorem transparent_placeholderConstant {c : Constant} {init : Expr} (hinit : c.init = some init)
    (hsymbol : ¬settled c.symbol) (he : RendersSettled ctx settled true init) (name : String)
    (strategy : Strategy) (ty : Ty) : Transparent (ctx.Reuses done settled)
      (ctx.Reuses done settled) ctx (placeholderConstant c name ty strategy) := by
  unfold placeholderConstant
  rw [hinit]
  apply (transparent_rendering (follows_placeholder hp hdone he name strategy ty)).bind
  intro text s hs
  refine ⟨rfl, fun _ _ h => ?_⟩
  cases h
  exact hs.addDefault hsymbol text

/-- The constants that may be entered now are those whose successors are not settled. -/
theorem reuses_constantProperty {cs : List Constant} : ConstantProperty ctx ctx Eq
    (RendersSettled ctx (Unlisted cs)) (fun c => ∃ after, cs = c :: after)
    (Transparent (ctx.Reuses done (Unlisted cs)) (ctx.Reuses done (Unlisted cs)) ctx) where
  toStatementProperty := reuses_property hp hdone
  global {c} strategy _ _ hc s hs := by
    obtain ⟨after, rfl⟩ := hc
    refine ⟨rfl, fun _ _ h => ?_⟩
    cases h
    exact hs.addGlobal (fun h => h c List.mem_cons_self rfl) strategy
  placeholder {c} init strategy hc hinit he _ := by
    obtain ⟨after, rfl⟩ := hc
    exact transparent_placeholderConstant hp hdone hinit (fun h => h c List.mem_cons_self rfl) he _
      strategy _

theorem transparent_constant {before after : List Constant} {c : Constant}
    (hcs : (ctx.program.module ctx.module).constants = before ++ c :: after) :
    Transparent (ctx.Reuses done (Unlisted (c :: after))) (ctx.Reuses done (Unlisted after)) ctx
      (constant c) := by
  have listed : c ∈ (ctx.program.module ctx.module).constants := by
    rw [hcs]
    simp
  have settled : ∀ init, c.init = some init → RendersSettled ctx (Unlisted (c :: after))
      (ctx.program.symbol c.symbol).isPlaceholder init :=
    fun init hinit => ⟨.constant listed hinit, fun _ _ _ hfills => hp.ordered hcs hinit hfills⟩
  refine Transparent.mono ((reuses_constantProperty hp hdone).constant (.refl c) ⟨after, rfl⟩ settled)
    (fun _ _ h => h) fun known texts h => ?_
  exact h.settle fun _ hsymbol d hd => hsymbol d (List.mem_cons_of_mem c hd)

/-- Constants are lowered in order, so those that a default refers to are known by then. -/
theorem transparent_constantList (before cs after : List Constant)
    (hcs : (ctx.program.module ctx.module).constants = before ++ (cs ++ after)) :
    Transparent (ctx.Reuses done (Unlisted (cs ++ after))) (ctx.Reuses done (Unlisted after)) ctx
      (constantList cs) := by
  induction cs generalizing before with
  | nil => exact (reuses_property hp hdone).pure _
  | cons c rest ih =>
      apply (transparent_constant hp hdone hcs).bind
      intro lowered
      apply (ih (before ++ [c]) (by rw [hcs, List.append_assoc]; rfl)).bind
      intro others
      exact (reuses_property hp hdone).pure _

theorem transparent_constants :
    Transparent (ctx.Reuses done (Unlisted (ctx.program.module ctx.module).constants))
      (ctx.Reuses done (Unlisted [])) ctx
      (constants (ctx.program.module ctx.module).constants) := by
  have H := @reuses_property ctx done (Unlisted []) hp hdone
  unfold constants
  have list := transparent_constantList hp hdone [] (ctx.program.module ctx.module).constants []
    (by simp)
  rw [List.append_nil] at list
  apply list.bind
  intro lowered
  split
  · exact H.pure _
  · exact H.blank.bind fun _ => H.pure _

theorem transparent_heading : Transparent (fun _ texts => texts.KeptFor done)
    (ctx.Reuses done (Unlisted (ctx.program.module ctx.module).constants)) ctx
    (heading (ctx.program.module ctx.module)) := by
  have survey : Transparent (fun _ texts => texts.KeptFor done)
      (ctx.Reuses done (Unlisted (ctx.program.module ctx.module).constants)) ctx
      (surveyConstants (ctx.program.module ctx.module).constants) := by
    intro s hs
    obtain ⟨hanew, hends⟩ := @transparent_surveyConstants (fun _ texts => texts.KeptFor done) ctx
      (fun _ _ _ _ h => h) _ s hs
    exact ⟨hanew, fun _ t hrun => ⟨literals_of_isLiteral hrun,
      fun id m text h => .inl (hends () t hrun id m text h)⟩⟩
  have H := @reuses_property ctx done
    (Unlisted (ctx.program.module ctx.module).constants) hp hdone
  rw [heading_eq]
  apply survey.bind
  intro _
  apply (H.opening _).bind
  intro _
  exact H.forwardDeclarations fun _ _ => .refl _

/-- A module that shares its defaults is lowered as if no text of a default was kept. -/
theorem transparent_module : Transparent (fun _ texts => texts.KeptFor done)
    (fun _ texts => texts.KeptFor (done ++ [ctx.module])) ctx
    (module (ctx.program.module ctx.module)) := by
  have H := @reuses_functionProperty ctx done (Unlisted []) hp hdone
  have bodies : ∀ f ∈ (ctx.program.module ctx.module).functions, ∀ e ∈ Stmt.exprsAll f.body,
      RendersSettled ctx (Unlisted []) false e :=
    fun f hf e he => ⟨.body hf he, fun _ _ _ _ _ _ _ hd => by cases hd⟩
  have whole : Transparent (fun _ texts => texts.KeptFor done) (ctx.Reuses done (Unlisted [])) ctx
      (module (ctx.program.module ctx.module)) := by
    unfold module
    apply (transparent_heading hp hdone).bind
    intro _
    apply (transparent_constants hp hdone).bind
    intro lowered
    apply (H.moduleInitializer _).bind
    intro _
    exact H.ending (fun _ _ => .refl _) (fun _ _ _ _ => rfl) bodies
  refine whole.mono (fun _ _ h => h) fun known texts h id m text htext => ?_
  rcases h.kept id m text htext with hbefore | ⟨rfl, -⟩
  · exact List.mem_append_left _ hbefore
  · exact List.mem_append_right _ List.mem_cons_self

end
end Emission
end ColorLowering
