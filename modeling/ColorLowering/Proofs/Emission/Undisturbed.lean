import ColorLowering.Proofs.Emission.Growth
import ColorLowering.Proofs.Emission.Simulation
import ColorLowering.Proofs.Rerun.Rendering

/-!
# Nodes classify nothing

While the nodes of a module are lowered, one after another, what is known of its symbols stays as it
is, whether a node succeeds or fails. All that may grow are the body and the texts of defaults of
the module itself.
-/
namespace ColorLowering

/-- Every text that is kept stays, and only the module has got new ones. -/
structure DefaultTexts.GrowsFor (m : ModuleId) (texts later : DefaultTexts) : Prop where
  keeps : texts.Extends later
  others : ∀ key, key.2 ≠ m → later.get? key = texts.get? key

namespace DefaultTexts.GrowsFor

variable {m : ModuleId} {texts mid later : DefaultTexts}

theorem refl (m : ModuleId) (texts : DefaultTexts) : texts.GrowsFor m texts :=
  ⟨.refl texts, fun _ _ => rfl⟩

theorem trans (h : texts.GrowsFor m mid) (h' : mid.GrowsFor m later) : texts.GrowsFor m later :=
  ⟨h.keeps.trans h'.keeps, fun key hkey => (h'.others key hkey).trans (h.others key hkey)⟩

theorem insert (h : texts.GrowsFor m later) {id : ExprId} (hmissing : texts.get? (id, m) = none)
    (text : String) : texts.GrowsFor m (later.insert (id, m) text) := by
  refine ⟨h.keeps.insert hmissing text, fun key hkey => ?_⟩
  have apart : key ≠ (id, m) := fun hsame => hkey (by rw [hsame])
  rw [← h.others key hkey]
  obtain ⟨_ | table⟩ := later
  · rfl
  · exact Table.get?_insert_of_ne apart

end DefaultTexts.GrowsFor

namespace Rendering

/-- However it ends, a run adds texts of the module of the scope and nothing else. -/
def AddsTexts (scope : Scope) {α : Type} (r : Rendering α) : Prop :=
  ∀ texts : DefaultTexts, texts.GrowsFor scope.module (r scope texts).2

section
variable {scope : Scope} {α β : Type}

theorem AddsTexts.bind {x : Rendering α} {f : α → Rendering β} (hx : AddsTexts scope x)
    (hf : ∀ a, AddsTexts scope (f a)) : AddsTexts scope (x >>= f) := by
  intro texts
  have first := hx texts
  rw [bind_apply]
  cases hrun : x scope texts with
  | mk result later =>
      rw [hrun] at first
      cases result with
      | error e => exact first
      | ok a => exact first.trans (hf a later)

theorem addsTexts_property (scope : Scope) :
    RenderingProperty scope scope (AddsTexts scope) where
  akin := .refl _
  pure _ texts := .refl _ texts
  throw _ texts := .refl _ texts
  bind := AddsTexts.bind
  read _ h := h
  notAFunction _ texts := .refl _ texts

/-- A default is entered under the module of the scope, and only when it is missing. -/
theorem addsTexts_fills (slot : Slot) : slot.Fills (AddsTexts scope) := by
  cases slot with
  | required => trivial
  | optional param ty id default =>
      intro htext texts
      cases hname : default.plainName? with
      | some symbol =>
          rw [defaultText_plain hname]
          exact .refl _ texts
      | none =>
          have rendered := htext hname texts
          rw [defaultText_complex hname]
          cases hmissing : texts.get? (id, scope.module) with
          | some known => exact .refl _ texts
          | none =>
              dsimp only
              cases hrun : default.render scope texts with
              | mk result later =>
                  rw [hrun] at rendered
                  cases result with
                  | error e => exact rendered
                  | ok raw => exact rendered.insert hmissing _

theorem addsTexts_render (e : Expr) : AddsTexts scope e.render :=
  (addsTexts_property scope).render e (fun _ _ => rfl) (fun slot _ => addsTexts_fills slot)
    fun _ _ => .inl rfl

theorem addsTexts_renderAs (e : Expr) (ty : Ty) : AddsTexts scope (e.renderAs ty) :=
  (addsTexts_property scope).renderAs (fun _ _ => rfl) (fun slot _ => addsTexts_fills slot)
    (fun _ _ => .inl rfl) ty

theorem addsTexts_initializer (strategy : Strategy) (ty : Ty) (init : Expr) (object : String) :
    AddsTexts scope (initializer strategy ty init object) :=
  (addsTexts_property scope).initializer (fun _ _ => rfl) (fun slot _ => addsTexts_fills slot)
    (fun _ _ => .inl rfl) strategy ty object

theorem addsTexts_placeholder (name : String) (strategy : Strategy) (ty : Ty) (init : Expr) :
    AddsTexts scope (placeholder name strategy ty init) :=
  (addsTexts_property scope).placeholder (fun _ _ => rfl) (fun slot _ => addsTexts_fills slot)
    (fun _ _ => .inl rfl) (fun _ => .inl rfl) name strategy

end
end Rendering

namespace Emission

/-- The tables but for the texts of defaults, and the header, are the same; the texts of defaults
grow for the module, and the body grows. -/
structure Undisturbed (m : ModuleId) (s t : EmissionState) : Prop where
  known : t.tables.known = s.tables.known
  entries : t.tables.entries = s.tables.entries
  header : t.header = s.header
  texts : s.tables.defaultTexts.GrowsFor m t.tables.defaultTexts
  body : s.body.Extends t.body

theorem Undisturbed.trans {m : ModuleId} {s t u : EmissionState} (h : Undisturbed m s t)
    (h' : Undisturbed m t u) : Undisturbed m s u :=
  ⟨h'.known.trans h.known, h'.entries.trans h.entries, h'.header.trans h.header,
    h.texts.trans h'.texts, h.body.trans h'.body⟩

theorem undisturbed_withBody (m : ModuleId) {s : EmissionState} {body : Text.Writer}
    (h : s.body.Extends body) : Undisturbed m s (s.withBody body) :=
  ⟨rfl, rfl, rfl, .refl _ _, h⟩

def Undisturbing (ctx : ModuleContext) {α : Type} (x : Emission α) : Prop :=
  ∀ s, Undisturbed ctx.module s (x ctx s).2

section
variable {ctx : ModuleContext} {α β : Type}

theorem Undisturbing.bind {x : Emission α} {f : α → Emission β} (hx : Undisturbing ctx x)
    (hf : ∀ a, Undisturbing ctx (f a)) : Undisturbing ctx (x >>= f) := by
  intro s
  have first := hx s
  rw [bind_apply]
  cases hrun : x ctx s with
  | mk result t =>
      rw [hrun] at first
      cases result with
      | error e => exact first
      | ok a => exact first.trans (hf a t)

theorem undisturbing_writeBody {f : Text.Writer → Text.Writer}
    (hf : ∀ w : Text.Writer, w.Extends (f w)) : Undisturbing ctx (writeBody f) :=
  fun s => undisturbed_withBody ctx.module (hf s.body)

theorem undisturbing_rendering (qualifyAll : Bool) {r : Rendering α}
    (h : ∀ scope, Rendering.AddsTexts scope r) : Undisturbing ctx (rendering qualifyAll r) :=
  fun s =>
    { known := rfl
      entries := rfl
      header := rfl
      texts := h (ctx.scope s.tables.known qualifyAll) s.tables.defaultTexts
      body := .refl s.body }

theorem undisturbing_lines (texts : List String) : Undisturbing ctx (texts.forM line) := by
  rw [List.forM_eq_forM]
  induction texts with
  | nil => exact fun s => undisturbed_withBody ctx.module (.refl s.body)
  | cons text rest ih =>
      rw [List.forM_cons]
      exact (undisturbing_writeBody fun w => w.extends_line text).bind fun _ => ih

end
end Emission

namespace Lowering

/-- Every run in the module of `ctx`, however it ends, disturbs nothing and leaves the registers
what they are. -/
def Undisturbing (ctx : ModuleContext) {α : Type} (x : Lowering α) : Prop :=
  ∀ p, (x ctx p).2.registers = p.registers ∧
    Emission.Undisturbed ctx.module p.emission (x ctx p).2.emission

namespace Undisturbing

variable {ctx : ModuleContext} {α β : Type}

theorem bind {x : Lowering α} {f : α → Lowering β} (hx : Undisturbing ctx x)
    (hf : ∀ a, Undisturbing ctx (f a)) : Undisturbing ctx (x >>= f) := by
  intro p
  obtain ⟨registers, emission⟩ := hx p
  rw [bind_apply]
  cases hrun : x ctx p with
  | mk result p' =>
      rw [hrun] at registers emission
      cases result with
      | error e => exact ⟨registers, emission⟩
      | ok a =>
          obtain ⟨registers', emission'⟩ := hf a p'
          exact ⟨registers'.trans registers, emission.trans emission'⟩

theorem pure (a : α) : Undisturbing ctx (Pure.pure a) :=
  fun p => ⟨rfl, Emission.undisturbed_withBody ctx.module (.refl p.emission.body)⟩

theorem throw (e : Failure) : Undisturbing ctx (throw e : Lowering α) :=
  fun p => ⟨rfl, Emission.undisturbed_withBody ctx.module (.refl p.emission.body)⟩

theorem emit {x : Emission α} (hx : Emission.Undisturbing ctx x) : Undisturbing ctx (emit x) :=
  fun p => ⟨rfl, hx p.emission⟩

theorem read {f : ModuleContext → Lowering α} (hf : Undisturbing ctx (f ctx)) :
    Undisturbing ctx (MonadReader.read >>= f) := fun p => hf p

theorem registers {f : Registers → Lowering α} (hf : ∀ r, Undisturbing ctx (f r)) :
    Undisturbing ctx (Lowering.registers >>= f) := fun p => hf p.registers p

theorem line (text : String) : Undisturbing ctx (line text) :=
  emit (Emission.undisturbing_writeBody fun w => w.extends_line text)

theorem braced {content : Lowering Unit} (hc : Undisturbing ctx content) :
    Undisturbing ctx (braced content) :=
  (emit (Emission.undisturbing_writeBody Text.Writer.extends_openBrace)).bind fun _ =>
    hc.bind fun _ => emit (Emission.undisturbing_writeBody fun w => w.extends_closeBraceWith "")

/-- A margin is no piece of the output. -/
theorem indented {content : Lowering Unit} (hc : Undisturbing ctx content) :
    Undisturbing ctx (indented content) := by
  have deeper : Emission.Undisturbing ctx (Emission.writeBody Text.Writer.indent) :=
    Emission.undisturbing_writeBody fun w => .refl w
  have back : Emission.Undisturbing ctx (Emission.writeBody Text.Writer.dedent) :=
    Emission.undisturbing_writeBody fun w => .refl w
  exact (emit deeper).bind fun _ => hc.bind fun _ => emit back

theorem branch {content : Lowering Unit} (hc : Undisturbing ctx content) (body : List Stmt) :
    Undisturbing ctx (branch body content) := by
  unfold Lowering.branch
  split
  · split
    · exact hc.braced
    · exact hc.indented
  · exact hc.braced

/-- Whatever the registers are when the rendering begins. -/
theorem rendered {r : Rendering α} (h : ∀ scope, Rendering.AddsTexts scope r) :
    Undisturbing ctx (rendered r) :=
  registers fun regs => emit (Emission.undisturbing_rendering regs.qualifyAll h)

/-- The register that is set is put back, whether there is a text or not. -/
theorem placeholderText (name : String) (strategy : Strategy) (ty : Ty) (init : Expr) :
    Undisturbing ctx (placeholderText name strategy ty init) := by
  rw [placeholderText_eq]
  exact emit (Emission.undisturbing_rendering true fun _ =>
    Rendering.addsTexts_placeholder name strategy ty init)

theorem localVariable (symbol : SymbolId) (init : Option Expr) :
    Undisturbing ctx (localVariable symbol init) := by
  unfold Lowering.localVariable
  apply read
  dsimp only
  split
  · exact line _
  · exact throw _
  · apply (rendered fun _ => Rendering.addsTexts_initializer _ _ _ _).bind
    intro i
    cases i with
    | inline text => exact line _
    | deferred statements =>
        exact (line _).bind fun _ => (emit (Emission.undisturbing_lines statements)).braced

mutual
/-- Statements may nest; a part of one is lowered with the registers that the whole began with. -/
theorem statement (keyword : String) : (s : Stmt) → Undisturbing ctx (statement keyword s)
  | .declare symbol init => by
      rw [Lowering.statement]
      exact localVariable symbol init
  | .assign target value => by
      rw [Lowering.statement]
      apply (rendered fun _ => Rendering.addsTexts_render target).bind
      intro t
      apply (rendered fun _ => Rendering.addsTexts_renderAs value target.ty).bind
      intro v
      exact line _
  | .eval e => by
      rw [Lowering.statement]
      apply (rendered fun _ => Rendering.addsTexts_render e).bind
      intro text
      exact line _
  | .branch cond thenBody elseBody => by
      rw [Lowering.statement]
      apply (rendered fun _ => Rendering.addsTexts_renderAs cond _).bind
      intro c
      apply (line _).bind
      intro _
      apply ((statements "if" thenBody).branch thenBody).bind
      intro _
      split
      · exact pure ()
      · split
        · exact statements "else if" elseBody
        · exact (line _).bind fun _ => (statements "if" elseBody).branch elseBody
  | .loop cond body => by
      rw [Lowering.statement]
      apply (rendered fun _ => Rendering.addsTexts_renderAs cond _).bind
      intro c
      exact (line _).bind fun _ => (statements "if" body).braced
  | .ret none => by
      rw [Lowering.statement]
      exact line _
  | .ret (some value) => by
      rw [Lowering.statement]
      apply registers
      intro r
      apply (rendered fun _ => Rendering.addsTexts_renderAs value r.returnTy).bind
      intro text
      exact line _
  | .unresolved => by
      rw [Lowering.statement]
      exact throw _

theorem statements (keyword : String) : (body : List Stmt) →
    Undisturbing ctx (statements keyword body)
  | [] => by
      rw [Lowering.statements]
      exact pure ()
  | s :: rest => by
      rw [Lowering.statements]
      exact (statement keyword s).bind fun _ => statements keyword rest
end

end Undisturbing

/-- What is lowered by itself. -/
inductive Node where
  | expression (e : Expr)
  | converted (ty : Ty) (e : Expr)
  | initializer (strategy : Strategy) (ty : Ty) (init : Expr) (object : String)
  | placeholder (name : String) (strategy : Strategy) (ty : Ty) (init : Expr)
  | statement (keyword : String) (s : Stmt)

/-- After a node is lowered, however that ended. -/
def Node.after (ctx : ModuleContext) (p : Progress) : Node → Progress
  | expression e => (Lowering.rendered e.render ctx p).2
  | converted ty e => (Lowering.rendered (e.renderAs ty) ctx p).2
  | initializer strategy ty init object =>
    (Lowering.rendered (Rendering.initializer strategy ty init object) ctx p).2
  | placeholder name strategy ty init =>
    (Lowering.placeholderText name strategy ty init ctx p).2
  | statement keyword s => (Lowering.statement keyword s ctx p).2

end Lowering

/-- Everything is as before but for the body, which only grows, and the texts of defaults, which
only grow for the module. -/
structure Progress.Undisturbed (m : ModuleId) (before after : Progress) : Prop where
  literals : after.emission.tables.known.literals = before.emission.tables.known.literals
  folded : after.emission.tables.known.folded = before.emission.tables.known.folded
  globals : after.emission.tables.known.globals = before.emission.tables.known.globals
  strategies : after.emission.tables.known.strategies = before.emission.tables.known.strategies
  calledInInit : after.emission.tables.known.calledInInit =
    before.emission.tables.known.calledInInit
  needsModuleInit : after.emission.tables.known.needsModuleInit =
    before.emission.tables.known.needsModuleInit
  defaults : after.emission.tables.known.defaults = before.emission.tables.known.defaults
  entries : after.emission.tables.entries = before.emission.tables.entries
  header : after.emission.header = before.emission.header
  deferred : after.registers.deferred = before.registers.deferred
  returnTy : after.registers.returnTy = before.registers.returnTy
  qualifyAll : after.registers.qualifyAll = before.registers.qualifyAll
  body : before.emission.body.Extends after.emission.body
  texts : before.emission.tables.defaultTexts.GrowsFor m after.emission.tables.defaultTexts

theorem Lowering.Undisturbing.progress {ctx : ModuleContext} {α : Type} {x : Lowering α}
    (hx : Lowering.Undisturbing ctx x) (p : Progress) :
    Progress.Undisturbed ctx.module p (x ctx p).2 := by
  obtain ⟨hregisters, h⟩ := hx p
  exact
    { literals := by rw [h.known]
      folded := by rw [h.known]
      globals := by rw [h.known]
      strategies := by rw [h.known]
      calledInInit := by rw [h.known]
      needsModuleInit := by rw [h.known]
      defaults := by rw [h.known]
      entries := h.entries
      header := h.header
      deferred := by rw [hregisters]
      returnTy := by rw [hregisters]
      qualifyAll := by rw [hregisters]
      body := h.body
      texts := h.texts }

namespace Emission

open Lowering

/-- Lowering a node classifies nothing, whatever state and registers it starts with and however it
ends. Only a statement writes, and only at the end of the body. A module that is lowered with the
registers is what it is without them. -/
theorem nodes_classify_nothing (ctx : ModuleContext) (p : Progress) (node : Node) :
    Progress.Undisturbed ctx.module p (node.after ctx p) ∧
      ((∃ keyword s, node = .statement keyword s) ∨
        (node.after ctx p).emission.body = p.emission.body) ∧
      ∀ m ty, Performs ctx ⟨false, ty, []⟩ (Lowering.module m) (module m)
        fun _ _ r => ∃ ret, r = ⟨false, ret, []⟩ := by
  have agrees (m : Module) (ty : Ty) : Performs ctx ⟨false, ty, []⟩ (Lowering.module m) (module m)
      fun _ _ r => ∃ ret, r = ⟨false, ret, []⟩ := performs_module rfl rfl m
  cases node with
  | expression e =>
      have h : Lowering.Undisturbing ctx (Lowering.rendered e.render) :=
        .rendered fun _ => Rendering.addsTexts_render e
      exact ⟨h.progress p, .inr rfl, agrees⟩
  | converted ty e =>
      have h : Lowering.Undisturbing ctx (Lowering.rendered (e.renderAs ty)) :=
        .rendered fun _ => Rendering.addsTexts_renderAs e ty
      exact ⟨h.progress p, .inr rfl, agrees⟩
  | initializer strategy ty init object =>
      have h : Lowering.Undisturbing ctx
          (Lowering.rendered (Rendering.initializer strategy ty init object)) :=
        .rendered fun _ => Rendering.addsTexts_initializer strategy ty init object
      exact ⟨h.progress p, .inr rfl, agrees⟩
  | placeholder name strategy ty init =>
      refine ⟨(Undisturbing.placeholderText name strategy ty init).progress p, .inr ?_, agrees⟩
      rw [Node.after, placeholderText_eq]
      rfl
  | statement keyword s =>
      exact ⟨(Undisturbing.statement keyword s).progress p, .inl ⟨keyword, s, rfl⟩, agrees⟩

end Emission
end ColorLowering
