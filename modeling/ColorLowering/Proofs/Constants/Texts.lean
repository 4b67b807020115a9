import ColorLowering.Proofs.Constants.Survey
import ColorLowering.Proofs.Defaults.Sharing

/-!
# Invariants of the texts in the tables

The tables hold the texts of literals, of placeholders and of defaults. What is said of them is kept
by a whole module, where the renderings of the module keep it and give texts that may be entered.
-/
namespace ColorLowering

/-- What holds of every entry still does once another is entered of which it holds. -/
theorem Table.forall_insert {α β : Type} [DecidableEq α] {P : α → β → Prop} {t : Table α β}
    {key : α} {value : β} (h : ∀ k v, t.get? k = some v → P k v) (hentry : P key value) (k : α)
    (v : β) (hfound : (t.insert key value).get? k = some v) : P k v := by
  rw [Table.get?_insert] at hfound
  split at hfound
  · obtain rfl := Option.some.inj hfound
    exact ‹k = key› ▸ hentry
  · exact h k v hfound

namespace Emission

variable {α β : Type} {I : Tables → Prop} {P : α → Prop} {ctx : ModuleContext}
  {s t : EmissionState}

/-- Where the emitter ends, `I` holds of the tables that it leaves if it did before. -/
def Keeps (I : Tables → Prop) (ctx : ModuleContext) (x : Emission α) : Prop :=
  ∀ s, I s.tables → ∀ a t, x ctx s = (.ok a, t) → I t.tables

def KeepsGiving (I : Tables → Prop) (P : α → Prop) (ctx : ModuleContext) (x : Emission α) : Prop :=
  ∀ s, I s.tables → ∀ a t, x ctx s = (.ok a, t) → I t.tables ∧ P a

theorem KeepsGiving.keeps {x : Emission α} (hx : KeepsGiving I P ctx x) : Keeps I ctx x :=
  fun s hs a t hrun => (hx s hs a t hrun).1

theorem Keeps.bind {x : Emission α} {f : α → Emission β} (hx : Keeps I ctx x)
    (hf : ∀ a, Keeps I ctx (f a)) : Keeps I ctx (x >>= f) := by
  intro s hs b u hrun
  obtain ⟨a, t, hfirst, hlast⟩ := bind_eq_ok.mp hrun
  exact hf a t (hx s hs a t hfirst) b u hlast

theorem keeps_writeBody (f : Text.Writer → Text.Writer) : Keeps I ctx (writeBody f) := by
  intro s hs a t hrun
  cases hrun
  exact hs

/-- `I` is about the texts in the tables alone. The module keeps it when it renders, and when it
enters what is `Good`: a rendered text, or that of a value. -/
structure TextInvariant (I : Tables → Prop) (Good : String → Prop) (ctx : ModuleContext) :
    Prop where
  congr : ∀ {t t' : Tables}, I t → t'.known.literals = t.known.literals →
    t'.known.defaults = t.known.defaults → t'.defaultTexts = t.defaultTexts → I t'
  literal : ∀ {c : Constant} {init : Expr} {text : String} {t : Tables} (value : Option Value),
    I t → c ∈ (ctx.program.module ctx.module).constants → c.init = some init →
    init.isAggregate = false → init.isLiteral t.known.literals = true → Good text →
    I { t with known := t.known.addLiteral c.symbol text value }
  default : ∀ {symbol : SymbolId} {text : String} {t : Tables}, I t → Good text →
    I { t with known := t.known.addDefault symbol text }
  value : ∀ v : Value, Good v.text
  render : ∀ {portable : Bool} {e : Expr}, ctx.program.RendersAt ctx.module portable e →
    Keeps I ctx (render e.render)
  renderAs : ∀ {portable : Bool} {e : Expr} (ty : Ty),
    ctx.program.RendersAt ctx.module portable e →
    KeepsGiving I Good ctx (Emission.render (e.renderAs ty))
  initializer : ∀ {portable : Bool} {e : Expr} (strategy : Strategy) (ty : Ty) (object : String),
    ctx.program.RendersAt ctx.module portable e →
    Keeps I ctx (Emission.render (Rendering.initializer strategy ty e object))
  placeholder : ∀ {c : Constant} {init : Expr} (strategy : Strategy) (name : String),
    c ∈ (ctx.program.module ctx.module).constants → c.init = some init →
    (strategy = .deferred ∨ ctx.target.strategy? (ctx.program.symbol c.symbol).ty = some strategy) →
    KeepsGiving I Good ctx (renderPortable
      (Rendering.placeholder name strategy (ctx.program.symbol c.symbol).ty init))

namespace TextInvariant

variable {Good : String → Prop} (H : TextInvariant I Good ctx)
include H

theorem statementProperty :
    StatementProperty ctx ctx Eq (ctx.program.RendersAt ctx.module) (Keeps I ctx) where
  alike := .refl ctx
  pure _ _ hs _ _ hrun := by cases hrun; exact hs
  throw _ _ _ _ _ hrun := by cases hrun
  read _ hf := hf
  known _ hf := Keeps.bind (x := Emission.known)
    (fun _ hs _ _ hrun => by cases hrun; exact hs) hf
  bind := .bind
  line _ := keeps_writeBody _
  blank := keeps_writeBody _
  bracedWith _ _ hc := (keeps_writeBody _).bind fun _ => hc.bind fun _ => keeps_writeBody _
  indented hc := (keeps_writeBody _).bind fun _ => hc.bind fun _ => keeps_writeBody _
  render := H.render
  renderAs ty he := (H.renderAs ty he).keeps
  initializer := H.initializer

theorem functionProperty :
    FunctionProperty ctx ctx Eq (ctx.program.RendersAt ctx.module) (Keeps I ctx) where
  toStatementProperty := H.statementProperty
  publish _ _ _ s hs _ _ hrun := by cases hrun; exact H.congr hs rfl rfl rfl

theorem constantProperty :
    ConstantProperty ctx ctx Eq (ctx.program.RendersAt ctx.module)
      (fun c => c ∈ (ctx.program.module ctx.module).constants) (Keeps I ctx) where
  toStatementProperty := H.statementProperty
  global _ _ _ _ s hs _ _ hrun := by cases hrun; exact H.congr hs rfl rfl rfl
  placeholder strategy hc hinit _ hstrategy := by
    unfold placeholderConstant
    rw [hinit]
    intro s hs _ u hrun
    obtain ⟨text, t, htext, hrun⟩ := bind_eq_ok.mp hrun
    obtain ⟨ht, hgood⟩ := H.placeholder strategy _ hc hinit hstrategy s hs text t htext
    cases hrun
    exact H.default ht hgood

theorem surveys {c : Constant} (hc : c ∈ (ctx.program.module ctx.module).constants)
    (h : Surveys ctx c s t) (hs : I s.tables) : I t.tables := by
  cases h with
  | bare _ => exact hs
  | @folded init value hinit haggregate hliteral _ =>
      exact H.literal (some value) hs hc hinit haggregate hliteral (H.value value)
  | @verbatim init text texts hinit haggregate hliteral _ hrun =>
      have rendered : Emission.render (init.renderAs (ctx.program.symbol c.symbol).ty) ctx s =
          (.ok text, s.withTexts texts) := by
        unfold ModuleContext.verbatim at hrun
        rw [Emission.render, rendering_apply, hrun]
      obtain ⟨ht, hgood⟩ := H.renderAs _ (.constant hc hinit) s hs text _ rendered
      exact H.literal none ht hc hinit haggregate hliteral hgood
  | calling _ _ => exact H.congr hs rfl rfl rfl
  | waiting _ _ => exact H.congr hs rfl rfl rfl

theorem surveyConstants {cs : List Constant}
    (hcs : ∀ c ∈ cs, c ∈ (ctx.program.module ctx.module).constants) :
    Keeps I ctx (surveyConstants cs) := by
  induction cs with
  | nil => exact H.statementProperty.pure _
  | cons c rest ih =>
      intro s hs _ t hrun
      obtain ⟨u, hfirst, hrest⟩ := surveyConstants_cons_ok hrun
      exact ih (fun d hd => hcs d (List.mem_cons_of_mem _ hd)) u
        (H.surveys (hcs c List.mem_cons_self) hfirst hs) () t hrest

theorem constant {c : Constant} (hc : c ∈ (ctx.program.module ctx.module).constants) :
    Keeps I ctx (constant c) :=
  H.constantProperty.constant (.refl c) hc fun _ hinit => .constant hc hinit

theorem module : Keeps I ctx (module (ctx.program.module ctx.module)) := by
  have F := H.functionProperty
  unfold Emission.module
  rw [heading_eq]
  apply Keeps.bind
  · apply (H.surveyConstants fun _ hc => hc).bind
    intro _
    apply (F.opening _).bind
    intro _
    exact F.forwardDeclarations fun _ _ => .refl _
  intro _
  apply (F.constants_of fun c hc => H.constant hc).bind
  intro lowered
  apply (F.moduleInitializer _).bind
  intro _
  exact F.ending (fun _ _ => .refl _) (fun _ _ _ _ => rfl) fun f hf e he => .body hf he

end TextInvariant
end Emission
end ColorLowering
