import ColorLowering.Proofs.Agreement.Rendering
import ColorLowering.Proofs.Constants.Survey
import ColorLowering.Proofs.Emission.Emitters

/-!
# Emissions that agree

Two runs of an emitter, from states and in contexts that say the same of all that the emitter looks
up, give the same result and add the same to both outputs and to the entry routines. What is known
of other symbols may differ, and differs no more afterwards: both sides are entered the same.
-/
namespace ColorLowering

namespace Text.Writer

/-- Both writers had the same pieces added since the one stood at `base` and the other at `base'`,
and their margins are the same. -/
structure Abreast (base base' w w' : Writer) : Prop where
  added : ∃ pieces, w.pieces = base.pieces ++ pieces ∧ w'.pieces = base'.pieces ++ pieces
  level : w.level = w'.level

theorem Abreast.start {base base' : Writer} (h : base.level = base'.level) :
    Abreast base base' base base' :=
  ⟨⟨#[], by simp, by simp⟩, h⟩

theorem Abreast.eq {base w w' : Writer} (h : Abreast base base w w') : w = w' := by
  obtain ⟨⟨pieces, hw, hw'⟩, hlevel⟩ := h
  cases w
  cases w'
  simp_all

/-- A step that adds a piece and moves the margin by no more than the margin tells. -/
def Uniform (f : Writer → Writer) : Prop :=
  ∃ pieces : Nat → Array String, ∃ level : Nat → Nat,
    ∀ w, f w = ⟨w.pieces ++ pieces w.level, level w.level⟩

theorem Abreast.step {base base' w w' : Writer} (h : Abreast base base' w w')
    {f : Writer → Writer} (hf : Uniform f) : Abreast base base' (f w) (f w') := by
  obtain ⟨⟨added, hw, hw'⟩, hlevel⟩ := h
  obtain ⟨pieces, level, hf⟩ := hf
  rw [hf, hf]
  refine ⟨⟨added ++ pieces w.level, ?_, ?_⟩, congrArg level hlevel⟩
  · rw [hw, Array.append_assoc]
  · rw [hw', ← hlevel, Array.append_assoc]

theorem uniform_line (text : String) : Uniform (·.line text) :=
  ⟨fun level => #[indentLines level text], id, fun w => by simp [line, raw]⟩

theorem uniform_blank : Uniform blank := ⟨fun _ => #["\n"], id, fun w => by simp [blank, raw]⟩

theorem uniform_indent : Uniform indent := ⟨fun _ => #[], (· + 1), fun w => by simp [indent]⟩

theorem uniform_dedent : Uniform dedent := ⟨fun _ => #[], (· - 1), fun w => by simp [dedent]⟩

theorem uniform_openBrace : Uniform openBrace :=
  ⟨fun level => #[indentLines level "\x7b"], (· + 1), fun w => by
    simp [openBrace, indent, line, raw]⟩

theorem uniform_closeBraceWith (tail : String) : Uniform (·.closeBraceWith tail) :=
  ⟨fun level => #[String.ofList (margin (level - 1)) ++ "\x7d" ++ tail ++ "\n"], (· - 1),
    fun w => by simp [closeBraceWith, dedent, raw]⟩

end Text.Writer

namespace ModuleContext

def Lists (ctx : ModuleContext) (symbol : SymbolId) : Prop :=
  ∃ c ∈ (ctx.program.module ctx.module).constants, c.symbol = symbol

/-- The relation outlasts that both sides enter the same of the module's own symbols. -/
structure Steady (ctx : ModuleContext) (K : Classification → Classification → Prop) : Prop where
  literal : ∀ {k k' symbol} text value, ctx.Lists symbol → K k k' →
    K (k.addLiteral symbol text value) (k'.addLiteral symbol text value)
  callees : ∀ {k k' symbols}, (∀ symbol ∈ symbols, ctx.isHome symbol) → K k k' →
    K (k.addCallees symbols) (k'.addCallees symbols)
  needsModuleInit : ∀ {k k' symbol}, ctx.Lists symbol → K k k' →
    K (k.addNeedsModuleInit symbol) (k'.addNeedsModuleInit symbol)
  global : ∀ {k k' symbol} strategy, ctx.Lists symbol → K k k' →
    K (k.addGlobal symbol strategy) (k'.addGlobal symbol strategy)
  default : ∀ {k k' symbol} text, ctx.Lists symbol → K k k' →
    K (k.addDefault symbol text) (k'.addDefault symbol text)

end ModuleContext

/-- Since the states `base` and `base'` the same was added to the outputs and the entry routines.
`K` relates what is known, `T` the texts of defaults. -/
structure EmissionState.Abreast (base base' : EmissionState)
    (K : Classification → Classification → Prop) (T : DefaultTexts → DefaultTexts → Prop)
    (s s' : EmissionState) : Prop where
  known : K s.tables.known s'.tables.known
  texts : T s.tables.defaultTexts s'.tables.defaultTexts
  header : Text.Writer.Abreast base.header base'.header s.header s'.header
  body : Text.Writer.Abreast base.body base'.body s.body s'.body
  entries : ∃ added, s.tables.entries = base.tables.entries ++ added ∧
    s'.tables.entries = base'.tables.entries ++ added

namespace Emission

/-- Under `K`, rendering the expression looks up the same in both contexts. -/
structure SameLookups (strict : Prop) (K : Classification → Classification → Prop)
    (T : DefaultTexts → DefaultTexts → Prop) (ctx ctx' : ModuleContext) (portable : Bool)
    (e : Expr) : Prop where
  named : ∀ {k k'}, K k k' → ∀ symbol ∈ e.named,
    (ctx.scope k portable).resolve symbol = (ctx'.scope k' portable).resolve symbol
  filled : ∀ {k k'}, K k k' → ∀ slot ∈ e.filled,
    slot.Agrees strict T (ctx.scope k portable) (ctx'.scope k' portable)

theorem SameLookups.mono {strict : Prop} {K K' : Classification → Classification → Prop}
    {T : DefaultTexts → DefaultTexts → Prop} {ctx ctx' : ModuleContext} {portable : Bool} {e : Expr}
    (h : SameLookups strict K T ctx ctx' portable e) (hK : ∀ {k k'}, K' k k' → K k k') :
    SameLookups strict K' T ctx ctx' portable e :=
  ⟨fun hk => h.named (hK hk), fun hk => h.filled (hK hk)⟩

/-- From states that `Before` relates, the emitter does the same in both contexts and ends in states
that `After` relates. What fails is compared only where `strict` holds. -/
def Agrees {α : Type} (strict : Prop) (Before After : EmissionState → EmissionState → Prop)
    (ctx ctx' : ModuleContext) (x : Emission α) : Prop :=
  ∀ s s', Before s s' → match x ctx s with
    | (.ok a, t) => ∃ t', x ctx' s' = (.ok a, t') ∧ After t t'
    | (.error e, _) => strict → ∃ t', x ctx' s' = (.error e, t')

variable {strict : Prop} {ctx ctx' : ModuleContext} {α β : Type}

namespace Agrees

variable {Before Middle After R : EmissionState → EmissionState → Prop} {s s' t : EmissionState}

theorem done {x : Emission α} (hx : Agrees strict Before After ctx ctx' x) (hs : Before s s')
    {a : α} (hrun : x ctx s = (.ok a, t)) : ∃ t', x ctx' s' = (.ok a, t') ∧ After t t' := by
  simpa only [hrun] using hx s s' hs

theorem failed {x : Emission α} (hx : Agrees strict Before After ctx ctx' x) (hs : Before s s')
    {e : Failure} (hrun : x ctx s = (.error e, t)) (hstrict : strict) :
    ∃ t', x ctx' s' = (.error e, t') := by
  have h := hx s s' hs
  rw [hrun] at h
  exact h hstrict

theorem bind {x : Emission α} {f : α → Emission β} (hx : Agrees strict Before Middle ctx ctx' x)
    (hf : ∀ a, Agrees strict Middle After ctx ctx' (f a)) :
    Agrees strict Before After ctx ctx' (x >>= f) := by
  intro s s' hs
  rw [bind_apply]
  cases hrun : x ctx s with
  | mk result t =>
      cases result with
      | error e =>
          intro hstrict
          obtain ⟨t', hrun'⟩ := hx.failed hs hrun hstrict
          exact ⟨t', by rw [bind_apply, hrun']⟩
      | ok a =>
          obtain ⟨t', hrun', ht⟩ := hx.done hs hrun
          have same : (x >>= f) ctx' s' = f a ctx' t' := by rw [bind_apply, hrun']
          rw [same]
          exact hf a t t' ht

theorem pure (a : α) : Agrees strict R R ctx ctx' (pure a : Emission α) :=
  fun _ s' hs => ⟨s', rfl, hs⟩

theorem throw (e : Failure) : Agrees strict R R ctx ctx' (throw e : Emission α) :=
  fun _ s' _ _ => ⟨s', rfl⟩

theorem known {f : Classification → Emission α}
    (hf : ∀ s s', Before s s' → f s.tables.known = f s'.tables.known)
    (h : ∀ k, Agrees strict Before After ctx ctx' (f k)) :
    Agrees strict Before After ctx ctx' (Emission.known >>= f) := by
  intro s s' hs
  have same := h s.tables.known s s' hs
  have other : (Emission.known >>= f) ctx' s' = f s.tables.known ctx' s' := by
    rw [hf s s' hs]
    rfl
  rw [other]
  exact same

end Agrees

variable {base base' : EmissionState} {K : Classification → Classification → Prop}
  {T : DefaultTexts → DefaultTexts → Prop} {Renders : Bool → Expr → Prop}

theorem agrees_writeBody {f : Text.Writer → Text.Writer} (hf : Text.Writer.Uniform f) :
    Agrees strict (base.Abreast base' K T) (base.Abreast base' K T) ctx ctx' (writeBody f) :=
  fun _ s' hs => ⟨s'.withBody (f s'.body), rfl, { hs with body := hs.body.step hf }⟩

theorem agrees_writeHeader {f : Text.Writer → Text.Writer} (hf : Text.Writer.Uniform f) :
    Agrees strict (base.Abreast base' K T) (base.Abreast base' K T) ctx ctx' (writeHeader f) :=
  fun _ s' hs => ⟨s'.withHeader (f s'.header), rfl, { hs with header := hs.header.step hf }⟩

theorem agrees_addEntry (entry : EntryRoutine) :
    Agrees strict (base.Abreast base' K T) (base.Abreast base' K T) ctx ctx' (addEntry entry) := by
  intro s s' hs
  obtain ⟨added, hentries, hentries'⟩ := hs.entries
  refine ⟨s'.withEntry entry, rfl, { hs with entries := ⟨added ++ [entry], ?_, ?_⟩ }⟩
  · rw [← List.append_assoc, ← hentries]
  · rw [EmissionState.withEntry, ← List.append_assoc, ← hentries']

theorem agrees_enter {enter : Classification → Classification}
    (h : ∀ {k k'}, K k k' → K (enter k) (enter k')) :
    Agrees strict (base.Abreast base' K T) (base.Abreast base' K T) ctx ctx'
      (known >>= fun k => setKnown (enter k)) :=
  fun _ s' hs => ⟨s'.withKnown (enter s'.tables.known), rfl, { hs with known := h hs.known }⟩

theorem agrees_rendering {portable : Bool} {r : Rendering α}
    (h : ∀ {k k'}, K k k' →
      Rendering.Agrees strict T (ctx.scope k portable) (ctx'.scope k' portable) r) :
    Agrees strict (base.Abreast base' K T) (base.Abreast base' K T) ctx ctx'
      (rendering portable r) := by
  intro s s' hs
  have same := h hs.known _ _ hs.texts
  rw [rendering_apply]
  cases hresult : (r (ctx.scope s.tables.known portable) s.tables.defaultTexts).1 with
  | ok a =>
      obtain ⟨heq, htexts⟩ := same (.inr ⟨a, hresult⟩)
      exact ⟨_, Prod.ext (heq.symm.trans hresult) rfl, { hs with texts := htexts }⟩
  | error e =>
      intro hstrict
      obtain ⟨heq, -⟩ := same (.inl hstrict)
      exact ⟨_, Prod.ext (heq.symm.trans hresult) rfl⟩

section
variable (hctx : ctx.Alike ctx')
  (hnames : strict → ∀ symbol, (ctx.program.symbol symbol).name =
    (ctx'.program.symbol symbol).name)
include hctx hnames

theorem scope_alike (k k' : Classification) (portable : Bool) :
    (ctx.scope k portable).Alike strict (ctx'.scope k' portable) :=
  ⟨hctx.target, hctx.module, hnames⟩

theorem agrees_statements (hrenders : ∀ {portable e}, Renders portable e →
      SameLookups strict K T ctx ctx' portable e) :
    StatementProperty ctx ctx' K Renders
      (Agrees strict (base.Abreast base' K T) (base.Abreast base' K T) ctx ctx') where
  alike := hctx
  pure := .pure
  throw := .throw
  read {_ f} hf h s s' hs := by
    have same : (MonadReader.read >>= f) ctx' s' = f ctx ctx' s' := by
      rw [hf]
      rfl
    rw [same]
    exact h s s' hs
  known hf h := .known (fun s s' hs => hf _ _ hs.known) h
  bind := .bind
  line text := agrees_writeBody (Text.Writer.uniform_line text)
  blank := agrees_writeBody Text.Writer.uniform_blank
  bracedWith tail _ hc := (agrees_writeBody Text.Writer.uniform_openBrace).bind fun _ =>
    hc.bind fun _ => agrees_writeBody (Text.Writer.uniform_closeBraceWith tail)
  indented hc := (agrees_writeBody Text.Writer.uniform_indent).bind fun _ =>
    hc.bind fun _ => agrees_writeBody Text.Writer.uniform_dedent
  render he := agrees_rendering fun hk => Rendering.agrees_render (scope_alike hctx hnames _ _ _) _
    ((hrenders he).named hk) ((hrenders he).filled hk)
  renderAs ty he := agrees_rendering fun hk => Rendering.agrees_renderAs
    (scope_alike hctx hnames _ _ _) ((hrenders he).named hk) ((hrenders he).filled hk) ty
  initializer strategy ty object he := agrees_rendering fun hk => Rendering.agrees_initializer
    (scope_alike hctx hnames _ _ _) ((hrenders he).named hk) ((hrenders he).filled hk) strategy ty
    object

theorem agrees_functions (hrenders : ∀ {portable e}, Renders portable e →
      SameLookups strict K T ctx ctx' portable e) :
    FunctionProperty ctx ctx' K Renders
      (Agrees strict (base.Abreast base' K T) (base.Abreast base' K T) ctx ctx') where
  toStatementProperty := agrees_statements hctx hnames hrenders
  publish name head symbol := by
    unfold publicDeclaration
    apply (agrees_statements hctx hnames hrenders).read (by rw [hctx.namespaceText])
    exact (agrees_writeHeader (Text.Writer.uniform_line _)).bind fun _ => agrees_addEntry _

theorem agrees_placeholderConstant (hK : ctx.Steady K) {c : Constant} {init : Expr}
    (hc : ctx.Lists c.symbol) (hinit : c.init = some init)
    (he : SameLookups strict K T ctx ctx' true init) (name : String)
    (ty : Ty) (strategy : Strategy) :
    Agrees strict (base.Abreast base' K T) (base.Abreast base' K T) ctx ctx'
      (placeholderConstant c name ty strategy) := by
  unfold placeholderConstant
  rw [hinit]
  apply Agrees.bind
  · exact agrees_rendering fun hk => Rendering.agrees_placeholder (scope_alike hctx hnames _ _ _)
      (he.named hk) (he.filled hk) name strategy ty
  · intro text
    exact agrees_enter (hK.default text hc)

theorem agrees_constants (hK : ctx.Steady K)
    (hrenders : ∀ {portable e}, Renders portable e →
      SameLookups strict K T ctx ctx' portable e) :
    ConstantProperty ctx ctx' K Renders (fun c => ctx.Lists c.symbol)
      (Agrees strict (base.Abreast base' K T) (base.Abreast base' K T) ctx ctx') where
  toStatementProperty := agrees_statements hctx hnames hrenders
  global {c} strategy declaration init hc := by
    unfold declareGlobal
    have entered : Agrees strict (base.Abreast base' K T) (base.Abreast base' K T) ctx ctx'
        (known >>= fun k => setKnown (k.addGlobal c.symbol strategy)) :=
      agrees_enter (hK.global strategy hc)
    rw [← bind_assoc]
    exact entered.bind fun _ =>
      (agrees_writeBody (Text.Writer.uniform_line _)).bind fun _ => .pure _
  placeholder strategy hc hinit he _ :=
    agrees_placeholderConstant hctx hnames hK hc hinit (hrenders he) _ _ strategy

end
end Emission
end ColorLowering
