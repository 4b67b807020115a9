import ColorLowering.Proofs.Constants.Places
import ColorLowering.Proofs.Defaults.Sharing

/-!
# Emission with and without kept defaults

A run that keeps the texts of defaults goes hand in hand with one that keeps none: both give the
same result and the same state, the kept texts apart. The invariant is that every text kept for the
module is what its default still gives anew. Entering a constant leaves it so, since the defaults in
use refer to constants that are entered already.
-/
namespace ColorLowering

/-- The state with no texts of defaults kept. -/
def EmissionState.anew (s : EmissionState) : EmissionState := s.withTexts .unkept

theorem DefaultTexts.get?_insert {texts : DefaultTexts} {key key' : ExprId × ModuleId}
    {text text' : String} (h : (texts.insert key text).get? key' = some text') :
    key' = key ∧ text' = text ∨ texts.get? key' = some text' := by
  rcases texts with ⟨_ | table⟩
  · cases h
  · change (table.insert key text).get? key' = some text' at h
    rw [Table.get?_insert] at h
    split at h
    · exact .inl ⟨‹_›, (Option.some.inj h).symm⟩
    · exact .inr h

namespace Emission

/-- Where `Before` holds of what is known and kept, the emitter does what it does with no text kept.
`After` holds when it ends. -/
def Transparent {α : Type} (Before After : Classification → DefaultTexts → Prop)
    (ctx : ModuleContext) (x : Emission α) : Prop :=
  ∀ s, Before s.tables.known s.tables.defaultTexts →
    x ctx s.anew = ((x ctx s).1, (x ctx s).2.anew) ∧
      ∀ a t, x ctx s = (.ok a, t) → After t.tables.known t.tables.defaultTexts

section
variable {α β : Type} {Before Middle After Holds : Classification → DefaultTexts → Prop}
  {ctx : ModuleContext}

theorem Transparent.bind {x : Emission α} {f : α → Emission β}
    (hx : Transparent Before Middle ctx x) (hf : ∀ a, Transparent Middle After ctx (f a)) :
    Transparent Before After ctx (x >>= f) := by
  intro s hs
  obtain ⟨hanew, hmiddle⟩ := hx s hs
  rw [bind_apply, bind_apply, hanew]
  cases hrun : x ctx s with
  | mk result t =>
      cases result with
      | error e => exact ⟨rfl, fun _ _ h => by cases h⟩
      | ok a => exact hf a t (hmiddle a t hrun)

theorem Transparent.mono {Before' After' : Classification → DefaultTexts → Prop} {x : Emission α}
    (hx : Transparent Before After ctx x)
    (hbefore : ∀ known texts, Before' known texts → Before known texts)
    (hafter : ∀ known texts, After known texts → After' known texts) :
    Transparent Before' After' ctx x := by
  intro s hs
  obtain ⟨hanew, hends⟩ := hx s (hbefore _ _ hs)
  exact ⟨hanew, fun a t hrun => hafter _ _ (hends a t hrun)⟩

theorem transparent_setKnown {k : Classification}
    (h : ∀ known texts, Before known texts → After k texts) :
    Transparent Before After ctx (setKnown k) := by
  intro s hs
  refine ⟨rfl, fun _ t hrun => ?_⟩
  rw [setKnown_apply] at hrun
  cases hrun
  exact h _ _ hs

theorem transparent_writeBody (f : Text.Writer → Text.Writer) :
    Transparent Holds Holds ctx (writeBody f) := by
  intro s hs
  refine ⟨rfl, fun _ t hrun => ?_⟩
  rw [writeBody_apply] at hrun
  cases hrun
  exact hs

theorem transparent_rendering {portable : Bool} {r : Rendering α}
    (h : ∀ known, Rendering.Follows (Holds known) (ctx.scope known portable)
      (ctx.scope known portable) r) : Transparent Holds Holds ctx (rendering portable r) := by
  intro s hs
  obtain ⟨hunkept, hfollows⟩ := h s.tables.known
  obtain ⟨hresult, hholds⟩ := hfollows _ hs
  constructor
  · rw [rendering_apply, rendering_apply, hresult]
    exact Prod.ext rfl (congrArg s.withTexts hunkept)
  · intro a t hrun
    rw [rendering_apply] at hrun
    obtain ⟨-, rfl⟩ := Prod.mk.inj hrun
    exact hholds

theorem transparent_property {Renders : Bool → Expr → Prop}
    (honest : ∀ {portable e}, Renders portable e → ∀ known, ∀ slot ∈ e.filled,
      slot.Honest (Holds known) (ctx.scope known portable) (ctx.scope known portable)) :
    StatementProperty ctx ctx Eq Renders (Transparent Holds Holds ctx) where
  alike := .refl ctx
  pure _ s hs := ⟨rfl, fun _ _ h => by cases h; exact hs⟩
  throw _ s hs := ⟨rfl, fun _ _ h => by cases h⟩
  read _ hf := hf
  known _ hf := Transparent.bind (x := Emission.known)
    (fun s hs => ⟨rfl, fun _ _ h => by cases h; exact hs⟩) hf
  bind := .bind
  line _ := transparent_writeBody _
  blank := transparent_writeBody _
  bracedWith _ _ hc :=
    (transparent_writeBody _).bind fun _ => hc.bind fun _ => transparent_writeBody _
  indented hc := (transparent_writeBody _).bind fun _ => hc.bind fun _ => transparent_writeBody _
  render he := transparent_rendering fun known =>
    Rendering.follows_render (ctx.sameModule known known _ _) (fun _ _ => rfl) (honest he known)
  renderAs ty he := transparent_rendering fun known =>
    Rendering.follows_renderAs (ctx.sameModule known known _ _) (fun _ _ => rfl)
      (honest he known) ty
  initializer strategy ty object he := transparent_rendering fun known =>
    Rendering.follows_initializer (ctx.sameModule known known _ _) (fun _ _ => rfl)
      (honest he known) strategy ty object

end

section
variable {Holds : Classification → DefaultTexts → Prop} {ctx : ModuleContext}
  (hkeep : ∀ known known' texts, known'.defaults = known.defaults → Holds known texts →
    Holds known' texts)
include hkeep

theorem transparent_surveyLiteral {symbol : SymbolId} {init : Expr} (hinit : init.filled = []) :
    Transparent Holds Holds ctx (surveyLiteral symbol init) := by
  intro s hs
  have entered : ∀ text value,
      Transparent (fun known texts => known = s.tables.known ∧ Holds known texts) Holds ctx
        (setKnown (s.tables.known.addLiteral symbol text value)) := by
    intro text value
    apply transparent_setKnown
    rintro _ texts ⟨rfl, h⟩
    exact hkeep s.tables.known _ texts rfl h
  have rendered : Transparent (fun known texts => known = s.tables.known ∧ Holds known texts)
      (fun known texts => known = s.tables.known ∧ Holds known texts) ctx
      (render (init.renderAs (ctx.program.symbol symbol).ty)) :=
    transparent_rendering fun known => Rendering.follows_renderAs
      (ctx.sameModule known known false false) (fun _ _ => rfl) (by simp [hinit]) _
  have known : s.anew.tables.known = s.tables.known := rfl
  rw [surveyLiteral_apply, surveyLiteral_apply, known]
  cases ctx.folded? s.tables.known symbol init with
  | some value => exact entered value.text (some value) s ⟨rfl, hs⟩
  | none => exact (rendered.bind fun text => entered text none) s ⟨rfl, hs⟩

theorem transparent_surveyCallees (symbol : SymbolId) (init : Expr) :
    Transparent Holds Holds ctx (surveyCallees symbol init) := by
  intro s hs
  simp only [surveyCallees, bind_apply, read_apply, known_apply]
  by_cases h : (ctx.homeCallees init).isEmpty || (ctx.program.symbol symbol).isPlaceholder
  · simp only [if_pos h, setKnown_apply]
    exact ⟨rfl, fun _ _ hrun => by cases hrun; exact hkeep s.tables.known _ _ rfl hs⟩
  · simp only [if_neg h, setKnown_apply]
    exact ⟨rfl, fun _ _ hrun => by cases hrun; exact hkeep s.tables.known _ _ rfl hs⟩

theorem transparent_surveyConstants (cs : List Constant) :
    Transparent Holds Holds ctx (surveyConstants cs) := by
  have H : StatementProperty ctx ctx Eq (fun _ _ => False) (Transparent Holds Holds ctx) :=
    transparent_property fun h => h.elim
  induction cs with
  | nil => exact H.pure _
  | cons c rest ih =>
      rw [surveyConstants]
      apply H.bind
      · unfold surveyConstant
        split
        · exact H.pure _
        · apply H.known fun _ _ hk => by rw [hk]
          intro k
          split
          · rename_i init _ hliteral
            rw [Bool.and_eq_true] at hliteral
            exact transparent_surveyLiteral hkeep (Expr.filled_of_isLiteral init hliteral.2)
          · exact transparent_surveyCallees hkeep _ _
      · intro _
        exact ih

end
end Emission
end ColorLowering
