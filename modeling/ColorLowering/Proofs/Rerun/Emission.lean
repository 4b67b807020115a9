import ColorLowering.Proofs.Agreement.Emission
import ColorLowering.Proofs.Rerun.Rendering

/-!
# Emitters that are repeated

Once everything that a run entered is known, and its texts of defaults are kept, the run can be
repeated: it gives the same result and adds the same to the outputs and to the entry routines, and
neither table changes. The second run may start from texts that the first one still had to enter,
so to repeat two runs in a row the texts of the second have to be at hand in the first.
-/
namespace ColorLowering

/-- What was added since `base` was added since `base'` too, where everything is `known` and all
texts are `full`. -/
abbrev EmissionState.Redone (base base' : EmissionState) (known : Classification)
    (full : DefaultTexts) : EmissionState → EmissionState → Prop :=
  base.Abreast base' (fun _ k => k = known) (fun _ texts => texts = full)

namespace Emission

/-- The run of the emitter from `s` to `t`, with the result `a`, keeps the texts that it found. It is
repeated wherever `final` is known and those of `t` are kept. -/
structure Replays {α : Type} (ctx : ModuleContext) (final : Classification) (x : Emission α) (a : α)
    (s t : EmissionState) : Prop where
  kept : t.tables.defaultTexts.kept.isSome
  texts : s.tables.defaultTexts.Extends t.tables.defaultTexts
  again : ∀ {base base' s' : EmissionState} {full : DefaultTexts}, t.tables.defaultTexts.Extends full →
    base.Redone base' final full s s' →
    ∃ t', x ctx s' = (.ok a, t') ∧ base.Redone base' final full t t'

/-- Every run that starts where `Before` holds of what is known ends there and is repeated. -/
def Repeats {α : Type} (ctx : ModuleContext) (Before : Classification → Prop)
    (final : Classification) (x : Emission α) : Prop :=
  ∀ s a t, Before s.tables.known → s.tables.defaultTexts.kept.isSome → x ctx s = (.ok a, t) →
    Before t.tables.known ∧ Replays ctx final x a s t

variable {ctx : ModuleContext} {final : Classification} {α β : Type}

namespace Replays

variable {x : Emission α} {f : α → Emission β} {a : α} {b : β} {s t u : EmissionState}

theorem bind (hx : Replays ctx final x a s t) (hf : Replays ctx final (f a) b t u) :
    Replays ctx final (x >>= f) b s u where
  kept := hf.kept
  texts := hx.texts.trans hf.texts
  again hfull hs := by
    obtain ⟨t', hrun, ht⟩ := hx.again (hf.texts.trans hfull) hs
    obtain ⟨u', hrun', hu⟩ := hf.again hfull ht
    exact ⟨u', bind_eq_ok.mpr ⟨a, t', hrun, hrun'⟩, hu⟩

theorem pure (hkept : s.tables.defaultTexts.kept.isSome) (a : α) :
    Replays ctx final (pure a : Emission α) a s s where
  kept := hkept
  texts := .refl _
  again {_ _ s' _} _ hs := ⟨s', rfl, hs⟩

/-- An emitter that asks what is known goes on alike where it goes on alike with `final`. -/
theorem known {f : Classification → Emission α} {k : Classification}
    (hf : f k = f final) (h : Replays ctx final (f k) a s t) :
    Replays ctx final (Emission.known >>= f) a s t where
  kept := h.kept
  texts := h.texts
  again {base base' s' full} hfull hs := by
    obtain ⟨t', hrun, ht⟩ := h.again hfull hs
    refine ⟨t', ?_, ht⟩
    change f s'.tables.known ctx s' = (.ok a, t')
    rw [hs.known, ← hf]
    exact hrun

theorem writeBody (hkept : s.tables.defaultTexts.kept.isSome) {f : Text.Writer → Text.Writer}
    (hf : Text.Writer.Uniform f) :
    Replays ctx final (writeBody f) () s (s.withBody (f s.body)) where
  kept := hkept
  texts := .refl _
  again {_ _ s' _} _ hs := ⟨s'.withBody (f s'.body), rfl, { hs with body := hs.body.step hf }⟩

theorem writeHeader (hkept : s.tables.defaultTexts.kept.isSome) {f : Text.Writer → Text.Writer}
    (hf : Text.Writer.Uniform f) :
    Replays ctx final (writeHeader f) () s (s.withHeader (f s.header)) where
  kept := hkept
  texts := .refl _
  again {_ _ s' _} _ hs :=
    ⟨s'.withHeader (f s'.header), rfl, { hs with header := hs.header.step hf }⟩

theorem addEntry (hkept : s.tables.defaultTexts.kept.isSome) (entry : EntryRoutine) :
    Replays ctx final (addEntry entry) () s (s.withEntry entry) where
  kept := hkept
  texts := .refl _
  again {_ _ s' _} _ hs := by
    obtain ⟨added, hentries, hentries'⟩ := hs.entries
    refine ⟨s'.withEntry entry, rfl, { hs with entries := ⟨added ++ [entry], ?_, ?_⟩ }⟩
    · rw [← List.append_assoc, ← hentries]
      rfl
    · rw [← List.append_assoc, ← hentries']
      rfl

/-- What is entered is known already. -/
theorem setKnown (hkept : s.tables.defaultTexts.kept.isSome) {k : Classification}
    {enter : Classification → Classification} (henter : enter final = final) :
    Replays ctx final (Emission.known >>= fun k => setKnown (enter k)) () s
      (s.withKnown k) where
  kept := hkept
  texts := .refl _
  again {base base' s' full} _ hs := by
    refine ⟨s', ?_, { hs with }⟩
    change ((.ok (), s'.withKnown (enter s'.tables.known)) : Except Failure Unit × EmissionState) =
      (.ok (), s')
    rw [hs.known, henter, ← hs.known]
    rfl

theorem rendering {portable : Bool} {r : Rendering α}
    (hr : Rendering.Recalls (ctx.scope s.tables.known portable) (ctx.scope final portable) r)
    (hkept : s.tables.defaultTexts.kept.isSome)
    (hrun : rendering portable r ctx s = (.ok a, t)) :
    Replays ctx final (rendering portable r) a s t := by
  rw [rendering_apply] at hrun
  obtain ⟨hresult, rfl⟩ := Prod.mk.inj hrun
  obtain ⟨⟨hlater, hadded⟩, hagain⟩ := hr _ a _ hkept (Prod.ext hresult rfl)
  refine ⟨hlater, hadded, fun {base base' s' full} hfull hs => ⟨s', ?_, { hs with }⟩⟩
  rw [rendering_apply, hs.known, hs.texts, hagain full hfull, ← hs.texts]
  rfl

end Replays

namespace Repeats

variable {Before : Classification → Prop} {Renders : Bool → Expr → Prop}

theorem bind {x : Emission α} {f : α → Emission β} (hx : Repeats ctx Before final x)
    (hf : ∀ a, Repeats ctx Before final (f a)) : Repeats ctx Before final (x >>= f) := by
  intro s b u hs hkept hrun
  obtain ⟨a, t, hfirst, hnext⟩ := bind_eq_ok.mp hrun
  obtain ⟨ht, replays⟩ := hx s a t hs hkept hfirst
  obtain ⟨hu, replays'⟩ := hf a t b u ht replays.kept hnext
  exact ⟨hu, replays.bind replays'⟩

theorem writeBody {f : Text.Writer → Text.Writer} (hf : Text.Writer.Uniform f) :
    Repeats ctx Before final (writeBody f) := by
  intro s _ t hs hkept hrun
  rw [writeBody_apply] at hrun
  cases hrun
  exact ⟨hs, .writeBody hkept hf⟩

theorem rendering {portable : Bool} {r : Rendering α}
    (hr : ∀ k, Before k → Rendering.Recalls (ctx.scope k portable) (ctx.scope final portable) r) :
    Repeats ctx Before final (rendering portable r) := by
  intro s a t hs hkept hrun
  have replays := Replays.rendering (hr _ hs) hkept hrun
  rw [rendering_apply] at hrun
  obtain ⟨-, rfl⟩ := Prod.mk.inj hrun
  exact ⟨hs, replays⟩

/-- Statements are repeated where the symbols of their expressions are referred to alike. -/
theorem property (hrenders : ∀ {portable e}, Renders portable e → ∀ k, Before k →
      ∀ symbol ∈ e.referred, k.SameReference final symbol) :
    StatementProperty ctx ctx (fun k k' => Before k ∧ k' = final) Renders
      (Repeats ctx Before final) where
  alike := .refl ctx
  pure a s _ t hs hkept hrun := by
    cases hrun
    exact ⟨hs, .pure hkept a⟩
  throw _ _ _ _ _ _ hrun := by cases hrun
  read _ h s a t hs hkept hrun := by
    obtain ⟨ht, replays⟩ := h s a t hs hkept hrun
    exact ⟨ht, replays.kept, replays.texts, replays.again⟩
  known {_ f} hf h s a t hs hkept hrun := by
    obtain ⟨ht, replays⟩ := h s.tables.known s a t hs hkept hrun
    exact ⟨ht, .known (hf _ _ ⟨hs, rfl⟩) replays⟩
  bind := bind
  line text := writeBody (Text.Writer.uniform_line text)
  blank := writeBody Text.Writer.uniform_blank
  bracedWith tail _ hc := (writeBody Text.Writer.uniform_openBrace).bind fun _ =>
    hc.bind fun _ => writeBody (Text.Writer.uniform_closeBraceWith tail)
  indented hc := (writeBody Text.Writer.uniform_indent).bind fun _ =>
    hc.bind fun _ => writeBody Text.Writer.uniform_dedent
  render he := rendering fun k hk => Rendering.recalls_render (hrenders he k hk)
  renderAs ty he := rendering fun k hk => Rendering.recalls_renderAs (hrenders he k hk) ty
  initializer strategy ty object he := rendering fun k hk =>
    Rendering.recalls_initializer (hrenders he k hk) strategy ty object

theorem functionProperty (hrenders : ∀ {portable e}, Renders portable e → ∀ k, Before k →
      ∀ symbol ∈ e.referred, k.SameReference final symbol) :
    FunctionProperty ctx ctx (fun k k' => Before k ∧ k' = final) Renders
      (Repeats ctx Before final) where
  toStatementProperty := property hrenders
  publish name head symbol := by
    unfold publicDeclaration
    apply (@property _ _ _ Renders hrenders).read rfl
    apply bind
    · intro s _ t hs hkept hrun
      cases hrun
      exact ⟨hs, .writeHeader hkept (Text.Writer.uniform_line _)⟩
    · intro _ s _ t hs hkept hrun
      cases hrun
      exact ⟨hs, .addEntry hkept _⟩

end Repeats
end Emission
end ColorLowering
