import ColorLowering.Proofs.Constants.Texts
import ColorLowering.Proofs.Reading.Rendered

/-!
# Readable texts are entered

While a legible program is lowered, the text of each literal, of each placeholder and of each
default that is entered in the tables is an operand.
-/
namespace ColorLowering

open Cpp

/-- The program is legible, and so are the namespaces that its texts are qualified by. -/
structure ModuleContext.Legible (ctx : ModuleContext) : Prop where
  vectors : isIdentifier ctx.target.vectorNamespace.toList
  namespaces : ctx.program.ReadableNamespaces
  program : ctx.program.Legible

structure Tables.Readable (p : Program) (t : Tables) : Prop where
  known : t.known.Readable p
  texts : t.defaultTexts.Readable

theorem Tables.readable_empty (p : Program) : Tables.empty.Readable p :=
  ⟨⟨fun _ _ h => (by cases h), fun _ _ h => (by cases h), fun _ _ h => (by cases h)⟩,
    fun _ _ h => (by cases h)⟩

theorem Program.Legible.not_literal {p : Program} (hp : p.Legible) {symbol : SymbolId}
    (hfunction : (p.symbol symbol).isFunction) : ¬p.Literal symbol := by
  intro hliteral
  obtain ⟨hc, -, -, -, -⟩ := hliteral
  rw [hp.constants _ _ hc] at hfunction
  cases hfunction

theorem ModuleContext.Legible.scope {ctx : ModuleContext} (hctx : ctx.Legible) {k : Classification}
    (hk : k.Readable ctx.program) (portable : Bool) : (ctx.scope k portable).Readable :=
  ⟨hctx.vectors, hctx.namespaces, fun _ => hctx.program.not_literal, hk⟩

namespace Rendering

variable {s : Scope} {e : Expr}

theorem yields_layOut {α : Type} (layout : Leaves α) (texts : List String) :
    Yields (fun _ => True) s (layOut layout texts) := by
  unfold layOut
  split
  · exact .pure ⟨rfl, trivial⟩
  · exact .failed fun _ => rfl

theorem yields_leafTexts (hs : s.Readable) (ty : Ty) (object : String) {leaves : List Expr}
    (h : Expr.AllLegible s.program leaves) :
    Yields (fun _ => True) s (Expr.leafTexts ty object leaves) := by
  unfold Expr.leafTexts
  obtain ⟨-, hpass⟩ | ⟨e, hstop⟩ := checkLeaves_cases ty object leaves.length
  · rw [hpass, pure_bind]
    exact (parallel_renderAll hs ty.leaves leaves h).yields fun _ _ _ => trivial
  · rw [hstop]
    exact .failed fun _ => rfl

theorem yields_render (hs : s.Readable) (h : e.Legible s.program) :
    Yields (fun text => ∃ tree, ReadsAs text tree) s e.render :=
  (parallel_render hs e h).yields fun _ tree hshown => ⟨tree, hshown.1⟩

theorem yields_renderAs (hs : s.Readable) (h : e.Legible s.program) (ty : Ty) :
    Yields (fun text => ∃ tree, ReadsAs text tree) s (e.renderAs ty) := by
  unfold Expr.renderAs
  apply Yields.bind (yields_render hs h)
  rintro text ⟨tree, htree⟩
  exact (Parallel.cast htree ty e.ty).yields fun _ _ hcast => ⟨_, hcast⟩

theorem yields_initializer (hs : s.Readable) (h : e.Legible s.program) (strategy : Strategy)
    (ty : Ty) (object : String) :
    Yields (fun _ => True) s (initializer strategy ty e object) := by
  have value := yields_renderAs hs h ty
  have leaves {α : Type} (ty' : Ty) (leaves : List Expr) (he : e = .aggregate ty' leaves)
      (layout : Target → Leaves α) :
      Yields (fun _ => True) s (aggregate ty object leaves layout) := by
    subst he
    rw [Expr.Legible] at h
    unfold aggregate
    apply Yields.bind (yields_leafTexts hs ty object h.2.2)
    intro texts _
    exact Parallel.read (yields_layOut _ texts)
  unfold initializer
  apply Parallel.read
  dsimp only
  split
  · exact Yields.bind (leaves _ _ rfl _) fun _ _ => .pure ⟨rfl, trivial⟩
  · split
    · exact Yields.bind (leaves _ _ rfl _) fun _ _ => .pure ⟨rfl, trivial⟩
    · exact Yields.bind (leaves _ _ rfl _) fun _ _ => .pure ⟨rfl, trivial⟩
  · exact Yields.bind (leaves _ _ rfl _) fun _ _ => .pure ⟨rfl, trivial⟩
  · exact Yields.bind value fun _ _ => .pure ⟨rfl, trivial⟩
  · exact Yields.bind value fun _ _ => .pure ⟨rfl, trivial⟩
  · exact Yields.bind value fun _ _ => .pure ⟨rfl, trivial⟩

theorem base_constructible (hs : s.Readable) {ty : Ty}
    (h : s.target.strategy? ty = some .construct) :
    Base (s.target.spelling ty) (.ofName (s.target.spelling ty)) := by
  obtain rfl | hnative := Target.eq_string_or_isNative h
  · exact Base.ofQualified std_string.1 std_string.2 (by decide)
  · obtain ⟨spelling, hspelling⟩ := Option.isSome_iff_exists.mp hnative
    rw [s.target.spelling_of_native hspelling]
    exact s.target.base_nativeSpelling hs.vectors hspelling

theorem yields_placeholder (hs : s.Readable) (h : e.Legible s.program) (name : String)
    {strategy : Strategy} {ty : Ty} (haggregate : e.isAggregate → ty.isComposite ∧ ty.Named)
    (hstrategy : strategy = .deferred ∨ s.target.strategy? ty = some strategy) :
    Yields (fun text => ∃ tree, ReadsAs text tree) s (placeholder name strategy ty e) := by
  have value := yields_renderAs hs h ty
  unfold placeholder
  split
  · exact (parallel_name hs ty h).yields fun text tree hshown => ⟨tree, hshown.1⟩
  · exact .failed fun _ => rfl
  · obtain ⟨hcomposite, hnamed⟩ := haggregate rfl
    rw [Expr.Legible] at h
    refine yields_render hs ?_
    rw [Expr.Legible]
    exact ⟨hcomposite, hnamed, h.2.2⟩
  · have head := base_constructible hs (hstrategy.resolve_left (by simp))
    apply Parallel.read
    apply Yields.bind value
    rintro text ⟨tree, htree⟩
    have applied := head.apply (.cons htree .nil)
    rw [commaSeparated, String.intercalate_singleton] at applied
    exact .pure ⟨rfl, _, applied.readsAs⟩
  · exact value

end Rendering

namespace Emission

variable {ctx : ModuleContext} {α : Type}

/-- A rendering leaves the texts of defaults readable, and its result has the property. -/
theorem keepsReadable_rendering {P : α → Prop} {portable : Bool} {r : Rendering α}
    (h : ∀ k : Classification, k.Readable ctx.program →
      Rendering.Yields P (ctx.scope k portable) r) :
    KeepsGiving (Tables.Readable ctx.program) P ctx (rendering portable r) := by
  intro s hs a t hrun
  rw [rendering_apply] at hrun
  obtain ⟨hresult, rfl⟩ := Prod.mk.inj hrun
  obtain ⟨hlater, hends⟩ := h s.tables.known hs.known s.tables.defaultTexts hs.texts
  obtain ⟨_, -, -, hP⟩ := hends a _ (Prod.ext hresult rfl)
  exact ⟨⟨hs.known, hlater⟩, hP⟩

theorem textInvariant_readable (hctx : ctx.Legible) :
    TextInvariant (Tables.Readable ctx.program) (fun text => ∃ tree, ReadsAs text tree) ctx where
  congr ht hliterals hdefaults htexts :=
    ⟨⟨hliterals ▸ ht.known.literal, hliterals ▸ ht.known.literals, hdefaults ▸ ht.known.defaults⟩,
      htexts ▸ ht.texts⟩
  literal {c _ _ _} _ ht hc hinit haggregate hliteral htext := by
    have literal : ctx.program.Literal c.symbol := by
      refine .constant hc hinit haggregate hliteral fun symbol hsymbol => ?_
      obtain ⟨text, h⟩ := Table.contains_iff.mp hsymbol
      exact ht.known.literal symbol text h
    exact ⟨⟨Table.forall_insert ht.known.literal literal,
      Table.forall_insert ht.known.literals htext, ht.known.defaults⟩, ht.texts⟩
  default ht htext := ⟨⟨ht.known.literal, ht.known.literals,
    Table.forall_insert ht.known.defaults htext⟩, ht.texts⟩
  value v := ⟨_, readsAs_value v⟩
  render he := (keepsReadable_rendering fun _ hk =>
    Rendering.yields_render (hctx.scope hk false) (hctx.program.rendered _ _ _ he)).keeps
  renderAs ty he := keepsReadable_rendering fun _ hk =>
    Rendering.yields_renderAs (hctx.scope hk false) (hctx.program.rendered _ _ _ he) ty
  initializer strategy ty object he := (keepsReadable_rendering fun _ hk =>
    Rendering.yields_initializer (hctx.scope hk false) (hctx.program.rendered _ _ _ he) strategy ty
      object).keeps
  placeholder {c init} strategy name hc hinit hstrategy := keepsReadable_rendering fun _ hk =>
    Rendering.yields_placeholder (hctx.scope hk true)
      (hctx.program.rendered _ _ _ (.constant hc hinit)) name
      (hctx.program.aggregates _ c hc init hinit) hstrategy

end Emission
end ColorLowering
