import ColorLowering.Proofs.Emission.Property

/-!
# Frames of emission

A frame bounds what a run may do to the emission state: `Done` relates the states around a run that
ends, `Failed` those around a run that stops with a failure. It is closed under every primitive of
emission, braces and margins taken as a whole, so that each emitter stays within each frame.
-/
namespace ColorLowering

namespace EmissionState

def withKnown (s : EmissionState) (known : Classification) : EmissionState :=
  { s with tables := { s.tables with known } }

def withTexts (s : EmissionState) (defaultTexts : DefaultTexts) : EmissionState :=
  { s with tables := { s.tables with defaultTexts } }

def withEntry (s : EmissionState) (entry : EntryRoutine) : EmissionState :=
  { s with tables := { s.tables with entries := s.tables.entries ++ [entry] } }

def withBody (s : EmissionState) (body : Text.Writer) : EmissionState := { s with body }

def withHeader (s : EmissionState) (header : Text.Writer) : EmissionState := { s with header }

end EmissionState

structure StatementFrame (Done Failed : EmissionState → EmissionState → Prop) : Prop where
  refl : ∀ s, Done s s
  trans : ∀ {s t u}, Done s t → Done t u → Done s u
  stop : ∀ s, Failed s s
  fail : ∀ {s t u}, Done s t → Failed t u → Failed s u
  texts : ∀ s texts, Done s (s.withTexts texts)
  line : ∀ s text, Done s (s.withBody (s.body.line text))
  blank : ∀ s, Done s (s.withBody s.body.blank)
  braced : ∀ {s t} tail, Done (s.withBody s.body.openBrace) t →
    Done s (t.withBody (t.body.closeBraceWith tail))
  bracedFailed : ∀ {s t}, Failed (s.withBody s.body.openBrace) t → Failed s t
  indented : ∀ {s t}, Done (s.withBody s.body.indent) t → Done s (t.withBody t.body.dedent)
  indentedFailed : ∀ {s t}, Failed (s.withBody s.body.indent) t → Failed s t

structure FunctionFrame (Done Failed : EmissionState → EmissionState → Prop) : Prop
    extends StatementFrame Done Failed where
  header : ∀ s text, Done s (s.withHeader (s.header.line text))
  entry : ∀ s entry, Done s (s.withEntry entry)

structure ConstantFrame (Done Failed : EmissionState → EmissionState → Prop) : Prop
    extends StatementFrame Done Failed where
  global : ∀ s symbol strategy, Done s (s.withKnown (s.tables.known.addGlobal symbol strategy))
  default : ∀ s symbol text, Done s (s.withKnown (s.tables.known.addDefault symbol text))

structure SurveyFrame (Done Failed : EmissionState → EmissionState → Prop) : Prop
    extends StatementFrame Done Failed where
  literal : ∀ s symbol text value,
    Done s (s.withKnown (s.tables.known.addLiteral symbol text value))
  callees : ∀ s symbols, Done s (s.withKnown (s.tables.known.addCallees symbols))
  needsModuleInit : ∀ s symbol, Done s (s.withKnown (s.tables.known.addNeedsModuleInit symbol))

namespace Emission

/-- Every run in the module of `ctx`, from any state, stays within the two relations. -/
def WithinAt {α : Type} (Done Failed : EmissionState → EmissionState → Prop) (ctx : ModuleContext)
    (x : Emission α) : Prop :=
  ∀ s, match x ctx s with
    | (.ok _, t) => Done s t
    | (.error _, t) => Failed s t

def Within {α : Type} (Done Failed : EmissionState → EmissionState → Prop) (x : Emission α) :
    Prop :=
  ∀ ctx, WithinAt Done Failed ctx x

variable {Done Failed : EmissionState → EmissionState → Prop} {α β : Type} {ctx : ModuleContext}
  {s t : EmissionState}

theorem WithinAt.done {x : Emission α} (hx : WithinAt Done Failed ctx x) {a : α}
    (hrun : x ctx s = (.ok a, t)) : Done s t := by
  have h := hx s
  simpa only [hrun] using h

theorem WithinAt.failed {x : Emission α} (hx : WithinAt Done Failed ctx x) {e : Failure}
    (hrun : x ctx s = (.error e, t)) : Failed s t := by
  have h := hx s
  simpa only [hrun] using h

theorem Within.done {x : Emission α} (hx : Within Done Failed x) {a : α}
    (hrun : x ctx s = (.ok a, t)) : Done s t := (hx ctx).done hrun

theorem Within.failed {x : Emission α} (hx : Within Done Failed x) {e : Failure}
    (hrun : x ctx s = (.error e, t)) : Failed s t := (hx ctx).failed hrun

theorem known_apply (ctx : ModuleContext) (s : EmissionState) :
    known ctx s = (.ok s.tables.known, s) := rfl

theorem setKnown_apply (k : Classification) (ctx : ModuleContext) (s : EmissionState) :
    setKnown k ctx s = (.ok (), s.withKnown k) := rfl

theorem writeBody_apply (f : Text.Writer → Text.Writer) (ctx : ModuleContext) (s : EmissionState) :
    writeBody f ctx s = (.ok (), s.withBody (f s.body)) := rfl

theorem line_apply (text : String) (ctx : ModuleContext) (s : EmissionState) :
    line text ctx s = (.ok (), s.withBody (s.body.line text)) := rfl

theorem read_apply (ctx : ModuleContext) (s : EmissionState) :
    (read : Emission ModuleContext) ctx s = (.ok ctx, s) := rfl

theorem rendering_apply (qualifyAll : Bool) (r : Rendering α) (ctx : ModuleContext)
    (s : EmissionState) :
    rendering qualifyAll r ctx s =
      ((r (ctx.scope s.tables.known qualifyAll) s.tables.defaultTexts).1,
        s.withTexts (r (ctx.scope s.tables.known qualifyAll) s.tables.defaultTexts).2) := rfl

end Emission

open Emission

namespace StatementFrame

variable {Done Failed : EmissionState → EmissionState → Prop} {α β : Type} {ctx : ModuleContext}
  (F : StatementFrame Done Failed)
include F

theorem withinAt_bind {x : Emission α} {f : α → Emission β} (hx : WithinAt Done Failed ctx x)
    (hf : ∀ a, WithinAt Done Failed ctx (f a)) : WithinAt Done Failed ctx (x >>= f) := by
  intro s
  rw [Emission.bind_apply]
  cases hrun : x ctx s with
  | mk result t =>
      cases result with
      | error e => exact hx.failed hrun
      | ok a =>
          have hst := hx.done hrun
          cases hnext : f a ctx t with
          | mk last u =>
              cases last with
              | error e =>
                  simpa only [hnext] using F.fail hst ((hf a).failed hnext)
              | ok b => simpa only [hnext] using F.trans hst ((hf a).done hnext)

theorem withinAt_rendering (qualifyAll : Bool) (r : Rendering α) :
    WithinAt Done Failed ctx (rendering qualifyAll r) := by
  intro s
  rw [rendering_apply]
  cases (r (ctx.scope s.tables.known qualifyAll) s.tables.defaultTexts).1 with
  | error e => exact F.fail (F.texts s _) (F.stop _)
  | ok a => exact F.texts s _

theorem withinAt_bracedWith (tail : String) {content : Emission Unit}
    (hc : WithinAt Done Failed ctx content) :
    WithinAt Done Failed ctx (bracedWith tail content) := by
  intro s
  simp only [bracedWith, Emission.bind_apply, writeBody_apply]
  cases hrun : content ctx (s.withBody s.body.openBrace) with
  | mk result t =>
      cases result with
      | error e => exact F.bracedFailed (hc.failed hrun)
      | ok u => exact F.braced tail (hc.done hrun)

theorem withinAt_indented {content : Emission Unit} (hc : WithinAt Done Failed ctx content) :
    WithinAt Done Failed ctx (Emission.indented content) := by
  intro s
  simp only [Emission.indented, Emission.bind_apply, writeBody_apply]
  cases hrun : content ctx (s.withBody s.body.indent) with
  | mk result t =>
      cases result with
      | error e => exact F.indentedFailed (hc.failed hrun)
      | ok u => exact F.indented (hc.done hrun)

/-- Staying within a frame is a property of emitters. -/
theorem property (ctx : ModuleContext) :
    StatementProperty ctx ctx Eq (fun _ _ => True) (WithinAt Done Failed ctx) where
  alike := .refl ctx
  pure _ s := F.refl s
  throw _ s := F.stop s
  read _ hf := hf
  known _ hf := F.withinAt_bind (fun s => F.refl s) hf
  bind := F.withinAt_bind
  line text s := F.line s text
  blank s := F.blank s
  bracedWith tail _ hc := F.withinAt_bracedWith tail hc
  indented := F.withinAt_indented
  render _ := F.withinAt_rendering false _
  renderAs _ _ := F.withinAt_rendering false _
  initializer _ _ _ _ := F.withinAt_rendering false _

end StatementFrame
end ColorLowering
