import ColorLowering.Proofs.Calls.Rendered
import ColorLowering.Proofs.Constants.Texts

/-!
# Solid texts are entered

While a plain program is lowered, the text of each literal, of each placeholder and of each default
that is entered in the tables is solid.
-/
namespace ColorLowering

open Text

/-- Nothing that the program spells has a bracket, a comma or a quote in its name. -/
structure Program.Plain (p : Program) : Prop where
  names : p.PlainNames
  rendered : ∀ m portable e, p.RendersAt m portable e → e.Plain
  constants : ∀ m, ∀ c ∈ (p.module m).constants, (p.symbol c.symbol).ty.Plain

structure ModuleContext.Plain (ctx : ModuleContext) : Prop where
  vectors : Text.Plain ctx.target.vectorNamespace
  program : ctx.program.Plain

structure Tables.Solid (t : Tables) : Prop where
  known : t.known.Solid
  texts : t.defaultTexts.Solid

theorem Tables.solid_empty : Tables.empty.Solid :=
  ⟨⟨fun _ _ h => (by cases h), fun _ _ h => (by cases h)⟩, fun _ _ h => (by cases h)⟩

theorem ModuleContext.Plain.scope {ctx : ModuleContext} (hctx : ctx.Plain) {k : Classification}
    (hk : k.Solid) (portable : Bool) : (ctx.scope k portable).Solid :=
  ⟨hctx.vectors, hctx.program.names, hk⟩

namespace Emission

variable {ctx : ModuleContext} {α : Type} {s t : EmissionState}

/-- A rendering leaves the texts of defaults solid, and its result has the property. -/
theorem solid_of_rendering {P : α → Prop} {portable : Bool} {r : Rendering α}
    (h : ∀ k : Classification, k.Solid → Rendering.Ensures P (ctx.scope k portable) r)
    (hs : s.tables.Solid) {result : Except Failure α}
    (hrun : rendering portable r ctx s = (result, t)) :
    t.tables.Solid ∧ ∀ a, result = .ok a → P a := by
  rw [rendering_apply] at hrun
  obtain ⟨rfl, rfl⟩ := Prod.mk.inj hrun
  obtain ⟨hlater, hends⟩ := h s.tables.known hs.known s.tables.defaultTexts hs.texts
  exact ⟨⟨hs.known, hlater⟩, hends⟩

theorem keepsSolid_rendering {P : α → Prop} {portable : Bool} {r : Rendering α}
    (h : ∀ k : Classification, k.Solid → Rendering.Ensures P (ctx.scope k portable) r) :
    KeepsGiving Tables.Solid P ctx (rendering portable r) := by
  intro s hs a t hrun
  obtain ⟨ht, hends⟩ := solid_of_rendering h hs hrun
  exact ⟨ht, hends a rfl⟩

theorem textInvariant_solid (hctx : ctx.Plain) : TextInvariant Tables.Solid Solid ctx where
  congr ht hliterals hdefaults htexts :=
    ⟨⟨hliterals ▸ ht.known.literals, hdefaults ▸ ht.known.defaults⟩, htexts ▸ ht.texts⟩
  literal _ ht _ _ _ _ htext :=
    ⟨⟨Table.forall_insert ht.known.literals htext, ht.known.defaults⟩, ht.texts⟩
  default ht htext :=
    ⟨⟨ht.known.literals, Table.forall_insert ht.known.defaults htext⟩, ht.texts⟩
  value := Value.solid_text
  render he := (keepsSolid_rendering fun _ hk =>
    Rendering.ensures_render (hctx.scope hk false) _ (hctx.program.rendered _ _ _ he)).keeps
  renderAs ty he := keepsSolid_rendering fun _ hk =>
    Rendering.ensures_renderAs (hctx.scope hk false) (hctx.program.rendered _ _ _ he) ty
  initializer strategy ty object he := (keepsSolid_rendering fun _ hk =>
    Rendering.ensures_initializer (hctx.scope hk false) (hctx.program.rendered _ _ _ he) strategy
      ty object).keeps
  placeholder {c _} strategy name hc hinit _ := keepsSolid_rendering fun _ hk =>
    Rendering.ensures_placeholder (hctx.scope hk true)
      (hctx.program.rendered _ _ _ (.constant hc hinit)) name strategy
      (hctx.program.constants _ c hc)

end Emission
end ColorLowering
