import ColorLowering.Proofs.Agreement.Rendering
import ColorLowering.Proofs.Constants.Survey
import ColorLowering.Proofs.Constants.Lowering

/-!
# Emission in the two dialects

As long as nothing is left to the module initializer, the dialect is looked at for structs and
containers alone. A constant that is neither, and whose initializer calls no function at home, is
declared with its value, so that nothing is left to the module initializer after it.
-/
namespace ColorLowering

def Scope.retarget (s : Scope) (t : Target) : Scope := { s with target := t }

def ModuleContext.retarget (ctx : ModuleContext) (t : Target) : ModuleContext :=
  { ctx with target := t }

namespace Rendering

def IgnoresTarget {α : Type} (s : Scope) (t : Target) (r : Rendering α) : Prop :=
  r s = r (s.retarget t)

variable {s : Scope} {t : Target} (h : s.target.Akin t)
include h

theorem ignoresTarget_property : RenderingProperty s (s.retarget t) (IgnoresTarget s t) where
  akin := h
  pure _ := rfl
  throw _ := rfl
  bind {_ _ x f} hx hf := by
    funext texts
    rw [bind_apply, bind_apply, ← hx]
    rcases x s texts with ⟨_ | a, later⟩
    · rfl
    · exact congrFun (hf a) later
  read {_ f} hf h := by
    have same : (MonadReader.read >>= f) (s.retarget t) = f s (s.retarget t) := by
      rw [hf]
      rfl
    exact h.trans same.symm
  notAFunction _ := rfl

theorem fills_ignoresTarget : (slot : Slot) → slot.Fills (IgnoresTarget s t)
  | .required .. => trivial
  | .optional _ ty id default => by
      intro htext
      funext texts
      cases hname : default.plainName? with
      | some symbol =>
          rw [defaultText_plain hname, defaultText_plain hname, h.cast]
          rfl
      | none =>
          rw [defaultText_complex hname, defaultText_complex hname, ← htext hname, h.cast]
          rfl

end Rendering

/-- No constant is left to the module initializer. -/
structure Classification.Calm (k : Classification) : Prop where
  needsModuleInit : ∀ symbol, k.needsModuleInit.contains symbol = false
  strategies : ∀ symbol, k.strategies.get? symbol ≠ some .deferred

namespace Classification

theorem calm_empty : empty.Calm := ⟨fun _ => rfl, fun _ h => by cases h⟩

theorem Calm.addGlobal {k : Classification} (hk : k.Calm) (symbol : SymbolId) {strategy : Strategy}
    (hstrategy : strategy ≠ .deferred) : (k.addGlobal symbol strategy).Calm where
  needsModuleInit := hk.needsModuleInit
  strategies other := by
    rw [Classification.addGlobal, Table.get?_insert]
    split
    · exact fun h => hstrategy (Option.some.inj h)
    · exact hk.strategies other

end Classification

namespace Emission

open Rendering

/-- Where nothing is left to the module initializer, the emitter does the same for either target,
and leaves nothing to it. -/
def IgnoresTarget {α : Type} (ctx : ModuleContext) (t : Target) (x : Emission α) : Prop :=
  ∀ s, s.tables.known.Calm → x ctx s = x (ctx.retarget t) s ∧ (x ctx s).2.tables.known.Calm

variable {ctx : ModuleContext} {t : Target} {α β : Type}

def Native (t : Target) (tys : List Ty) : Prop := ∀ ty ∈ tys, t.isNative ty

namespace IgnoresTarget

theorem bind_of_run {x : Emission α} {f : α → Emission β} (hx : IgnoresTarget ctx t x)
    (hf : ∀ {s a u}, x ctx s = (.ok a, u) → IgnoresTarget ctx t (f a)) :
    IgnoresTarget ctx t (x >>= f) := by
  intro s hs
  obtain ⟨hsame, hcalm⟩ := hx s hs
  rw [bind_apply, bind_apply, ← hsame]
  cases hrun : x ctx s with
  | mk result u =>
      rw [hrun] at hcalm
      cases result with
      | error e => exact ⟨rfl, hcalm⟩
      | ok a => exact hf hrun u hcalm

theorem known_of_calm {f : Classification → Emission α}
    (hf : ∀ k, k.Calm → IgnoresTarget ctx t (f k)) : IgnoresTarget ctx t (known >>= f) :=
  fun s hs => hf s.tables.known hs s hs

theorem bind {x : Emission α} {f : α → Emission β} (hx : IgnoresTarget ctx t x)
    (hf : ∀ a, IgnoresTarget ctx t (f a)) : IgnoresTarget ctx t (x >>= f) :=
  hx.bind_of_run fun _ => hf _

/-- What an emitter does first may depend on the module and on what is known by then. -/
theorem read_known {f : ModuleContext → Classification → Emission α}
    (hsame : ∀ k, k.Calm → f ctx k = f (ctx.retarget t) k)
    (hf : ∀ k, k.Calm → IgnoresTarget ctx t (f ctx k)) :
    IgnoresTarget ctx t (MonadReader.read >>= fun c => known >>= f c) := by
  intro s hs
  obtain ⟨hrun, hcalm⟩ := hf s.tables.known hs s hs
  rw [hsame s.tables.known hs] at hrun hcalm
  change f ctx s.tables.known ctx s = f (ctx.retarget t) s.tables.known (ctx.retarget t) s ∧
    (f ctx s.tables.known ctx s).2.tables.known.Calm
  rw [hsame s.tables.known hs]
  exact ⟨hrun, hcalm⟩

theorem setKnown {k : Classification} (hk : k.Calm) : IgnoresTarget ctx t (setKnown k) :=
  fun _ _ => ⟨rfl, hk⟩

theorem writeBody (f : Text.Writer → Text.Writer) : IgnoresTarget ctx t (writeBody f) :=
  fun _ hs => ⟨rfl, hs⟩

end IgnoresTarget

theorem strategy?_ne_deferred_of_shape {ty : Ty} (hty : ctx.target.shape ty ≠ .aggregate) :
    ctx.target.strategy? ty ≠ some .deferred := by
  rw [Target.strategy?]
  cases hshape : ctx.target.shape ty with
  | aggregate => exact absurd hshape hty
  | _ => cases ty.isVoid <;> simp [Target.strategyOf]

theorem isForced_of_calm {k : Classification} (hk : k.Calm) (c : Constant) :
    isForced ctx k c = false := by
  unfold isForced
  split
  · rfl
  · have reads : ctx.readsDeferred k ‹_› = false := by
      simp [ModuleContext.readsDeferred, Classification.isDeferred, hk.strategies]
    simp [hk.needsModuleInit, reads]

theorem ignoresTarget_rendering {portable : Bool} {r : Rendering α}
    (hr : ∀ k, Rendering.IgnoresTarget (ctx.scope k portable) t r) :
    IgnoresTarget ctx t (rendering portable r) := by
  intro s hs
  refine ⟨?_, hs⟩
  rw [rendering_apply, rendering_apply, hr s.tables.known]
  rfl

section
variable (h : ctx.target.Akin t)
include h

theorem ignoresTarget_property : EmitterProperty ctx (ctx.retarget t) Eq
    (fun e => Native ctx.target e.temporaries) (fun e => Native ctx.target e.initialTemporaries)
    (IgnoresTarget ctx t) where
  pure _ _ hs := ⟨rfl, hs⟩
  throw _ _ hs := ⟨rfl, hs⟩
  read {_ f} hf h s hs := by
    obtain ⟨hsame, hcalm⟩ := h s hs
    have same : (MonadReader.read >>= f) (ctx.retarget t) s = f ctx (ctx.retarget t) s := by
      rw [hf]
      rfl
    exact ⟨hsame.trans same.symm, hcalm⟩
  known _ hf := .known_of_calm fun k _ => hf k
  bind := .bind
  line _ := .writeBody _
  blank := .writeBody _
  bracedWith tail _ hc := (IgnoresTarget.writeBody _).bind fun _ => hc.bind fun _ => .writeBody _
  indented hc := (IgnoresTarget.writeBody _).bind fun _ => hc.bind fun _ => .writeBody _
  render {e} he := ignoresTarget_rendering fun k =>
    (Rendering.ignoresTarget_property (s := ctx.scope k false) h).render e (fun _ _ => rfl)
      (fun slot _ => fills_ignoresTarget h slot) fun ty hty => .inr (he ty hty)
  renderAs {e} ty he := ignoresTarget_rendering fun k =>
    (Rendering.ignoresTarget_property (s := ctx.scope k false) h).renderAs (fun _ _ => rfl)
      (fun slot _ => fills_ignoresTarget h slot) (fun ty hty => .inr (he ty hty)) ty
  initializer strategy ty object he := ignoresTarget_rendering fun k =>
    (Rendering.ignoresTarget_property (s := ctx.scope k false) h).initializer (fun _ _ => rfl)
      (fun slot _ => fills_ignoresTarget h slot) (fun ty hty => .inr (he ty hty)) strategy ty object

/-- What a declared constant has to be for the dialect not to matter. -/
structure Declarable (ctx : ModuleContext) (symbol : SymbolId) (init : Option Expr) : Prop where
  shape : ctx.target.shape (ctx.program.symbol symbol).ty ≠ .aggregate
  whole : (ctx.program.symbol symbol).ty = .string → ∀ e ∈ init, ¬ e.isAggregate

theorem ignoresTarget_declareGlobal {strategy : Strategy} (hstrategy : strategy ≠ .deferred)
    (c : LoweredConstant) : IgnoresTarget ctx t (declareGlobal strategy c) := by
  unfold declareGlobal
  apply IgnoresTarget.known_of_calm
  intro k hk
  apply (IgnoresTarget.setKnown (hk.addGlobal c.symbol hstrategy)).bind
  intro _
  apply (IgnoresTarget.writeBody _).bind
  exact fun _ => (ignoresTarget_property h).pure _

/-- The value of a constant that is no struct and no container stands in its declaration. -/
theorem ignoresTarget_declaredConstant {c : Constant} (hc : Declarable ctx c.symbol c.init)
    (hinit : ∀ init ∈ c.init, Native ctx.target init.initialTemporaries) {strategy : Strategy}
    (hstrategy : ctx.target.strategy? (ctx.program.symbol c.symbol).ty = some strategy)
    (name declaration : String) :
    IgnoresTarget ctx t (declaredConstant c name (ctx.program.symbol c.symbol).ty strategy
      declaration) := by
  have kept : strategy ≠ .deferred := by
    rintro rfl
    exact strategy?_ne_deferred_of_shape hc.shape hstrategy
  unfold declaredConstant
  split
  · exact ignoresTarget_declareGlobal h kept _
  · rename_i init hsome
    apply ((ignoresTarget_property h).initializer _ _ _ (hinit init hsome)).bind_of_run
    intro s i u hrun
    cases i with
    | inline text => exact ignoresTarget_declareGlobal h kept _
    | deferred statements =>
        rw [render, rendering_apply] at hrun
        have deferred := (Rendering.isDeferred_of_initializer
          (Prod.ext (Prod.mk.inj hrun).1 rfl)).mp rfl
        obtain rfl | ⟨rfl, haggregate, hnative⟩ := deferred
        · exact absurd rfl kept
        · obtain hstring | hnative' := Target.eq_string_or_isNative hstrategy
          · exact absurd haggregate (hc.whole hstring init hsome)
          · exact absurd (hnative.symm.trans hnative') (by simp)

theorem ignoresTarget_placeholderConstant {c : Constant} {ty : Ty}
    (hinit : ∀ init ∈ c.init, Native ctx.target init.initialTemporaries ∧
      (init.isAggregate → ctx.target.isNative ty)) (name : String) (strategy : Strategy) :
    IgnoresTarget ctx t (placeholderConstant c name ty strategy) := by
  unfold placeholderConstant
  split
  · exact (ignoresTarget_property h).pure _
  · rename_i init hsome
    obtain ⟨hnative, hdeclared⟩ := hinit init hsome
    apply IgnoresTarget.bind
    · exact ignoresTarget_rendering fun k =>
        (Rendering.ignoresTarget_property (s := ctx.scope k true) h).placeholder (fun _ _ => rfl)
          (fun slot _ => fills_ignoresTarget h slot) (fun ty hty => .inr (hnative ty hty))
          (fun he => .inr (hdeclared he)) name strategy
    · intro text
      exact .known_of_calm fun k hk => .setKnown ⟨hk.needsModuleInit, hk.strategies⟩

theorem ignoresTarget_constant {c : Constant} (hc : Declarable ctx c.symbol c.init)
    (hinit : ∀ init ∈ c.init, Native ctx.target init.initialTemporaries)
    (hplaceholder : (ctx.program.symbol c.symbol).isPlaceholder → ∀ init ∈ c.init,
      init.isAggregate → ctx.target.isNative (ctx.program.symbol c.symbol).ty) :
    IgnoresTarget ctx t (constant c) := by
  unfold constant
  apply IgnoresTarget.read_known
  · intro k hk
    rw [isForced_of_calm hk, isForced_of_calm hk]
    dsimp only
    rw [h.declare hc.shape]
    rfl
  · intro k hk
    rw [isForced_of_calm hk]
    dsimp only
    split
    · exact (ignoresTarget_property h).pure _
    · split
      · exact (ignoresTarget_property h).throw _
      · rename_i strategy hstrategy
        split
        · rename_i hmark
          apply (ignoresTarget_placeholderConstant h (fun init hi =>
            ⟨hinit init hi, hplaceholder hmark init hi⟩) _ strategy).bind
          exact fun _ => (ignoresTarget_property h).pure _
        · apply (ignoresTarget_declaredConstant h hc hinit hstrategy _ _).bind
          exact fun _ => (ignoresTarget_property h).pure _

theorem ignoresTarget_surveyConstant {c : Constant}
    (hinit : ∀ init ∈ c.init, Native ctx.target init.initialTemporaries ∧
      ctx.homeCallees init = []) : IgnoresTarget ctx t (surveyConstant c) := by
  unfold surveyConstant
  split
  · exact (ignoresTarget_property h).pure _
  · rename_i init hsome
    obtain ⟨hnative, hcalls⟩ := hinit init hsome
    apply IgnoresTarget.known_of_calm
    intro k hk
    split
    · rename_i hliteral
      unfold surveyLiteral
      apply IgnoresTarget.read_known
      · intro k _
        rw [ModuleContext.retarget, h.precision]
      · intro k hk
        dsimp only
        split
        · exact .setKnown ⟨hk.needsModuleInit, hk.strategies⟩
        · rw [Bool.and_eq_true, Bool.not_eq_true'] at hliteral
          rw [Expr.initialTemporaries_eq hliteral.1] at hnative
          apply ((ignoresTarget_property h).renderAs _ hnative).bind
          exact fun _ => .setKnown ⟨hk.needsModuleInit, hk.strategies⟩
    · unfold surveyCallees
      apply IgnoresTarget.read_known
      · intro k _
        rfl
      · intro k hk
        rw [hcalls]
        exact .setKnown ⟨hk.needsModuleInit, hk.strategies⟩

/-- What of a module does not depend on the dialect. -/
structure DialectFree (ctx : ModuleContext) (m : Module) : Prop where
  declarable : ∀ c ∈ m.constants, Declarable ctx c.symbol c.init
  constants : ∀ c ∈ m.constants, ∀ init ∈ c.init, Native ctx.target init.initialTemporaries
  placeholders : ∀ c ∈ m.constants, (ctx.program.symbol c.symbol).isPlaceholder →
    ∀ init ∈ c.init, init.isAggregate → ctx.target.isNative (ctx.program.symbol c.symbol).ty
  calls : ∀ c ∈ m.constants, ∀ init ∈ c.init, ctx.homeCallees init = []
  params : ∀ f ∈ m.functions, ∀ params ret,
    (ctx.program.symbol f.symbol).kind = .fn params ret →
      ∀ q ∈ params, ctx.target.shape q.ty ≠ .aggregate
  locals : ∀ f ∈ m.functions, ∀ d ∈ Stmt.declarationsAll f.body,
    ctx.target.shape (ctx.program.symbol d.1).ty ≠ .aggregate ∧
      ∀ init ∈ d.2, Native ctx.target init.initialTemporaries
  values : ∀ f ∈ m.functions, ∀ e ∈ Stmt.valuesAll f.body, Native ctx.target e.temporaries

theorem ignoresTarget_surveyConstants {cs : List Constant}
    (hcs : ∀ c ∈ cs, ∀ init ∈ c.init, Native ctx.target init.initialTemporaries ∧
      ctx.homeCallees init = []) : IgnoresTarget ctx t (surveyConstants cs) := by
  induction cs with
  | nil => exact (ignoresTarget_property h).pure _
  | cons c rest ih =>
      apply (ignoresTarget_surveyConstant h (hcs c List.mem_cons_self)).bind
      exact fun _ => ih fun d hd => hcs d (List.mem_cons_of_mem _ hd)

theorem ignoresTarget_module {m : Module} (hm : DialectFree ctx m) :
    IgnoresTarget ctx t (module m) := by
  have H := ignoresTarget_property h
  have hctx : ctx.Kindred (ctx.retarget t) := ⟨h, rfl, rfl⟩
  have heads : ∀ f ∈ m.functions, ctx.HeadsAlike (ctx.retarget t) f.symbol := by
    intro f hf
    refine ⟨rfl, fun params ret hkind => ?_⟩
    unfold parameterList
    rw [List.map_congr_left fun q hq => by rw [h.declare (hm.params f hf params ret hkind q hq)]]
    rfl
  unfold module
  rw [heading_eq]
  apply IgnoresTarget.bind
  · apply (ignoresTarget_surveyConstants h fun c hc init hinit =>
      ⟨hm.constants c hc init hinit, hm.calls c hc init hinit⟩).bind
    intro _
    apply (H.opening hctx m).bind
    exact fun _ => H.forwardDeclarations hctx fun f hf => ⟨heads f hf, fun _ _ h => by rw [h]⟩
  intro _
  apply (H.constants_of fun c hc => ignoresTarget_constant h (hm.declarable c hc)
    (hm.constants c hc) (hm.placeholders c hc)).bind
  intro lowered
  apply (H.moduleInitializer hctx _).bind
  intro _
  apply H.ending hctx
  intro f hf
  apply H.function hctx _ (heads f hf) (fun _ _ h => by rw [h]) _ (hm.values f hf)
  · intro name head symbol
    exact H.read rfl fun _ hs => ⟨rfl, hs⟩
  · intro d hd
    obtain ⟨hshape, hinit⟩ := hm.locals f hf d hd
    exact ⟨⟨rfl, h.declare hshape⟩, hinit⟩

end
end Emission
end ColorLowering
