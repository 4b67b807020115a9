import ColorLowering.Proofs.Defaults.Rendering
import ColorLowering.Proofs.Emission.Property

/-!
# Defaults that a module shares

A kept text serves every place of its module that omits the argument, whether the place is for this
module or for any, and whatever is known of the symbols by then. A module shares its defaults where
that makes no difference to their texts.
-/
namespace ColorLowering

/-- Both classifications have the same to say of a reference to the symbol. -/
structure Classification.SameReference (k k' : Classification) (symbol : SymbolId) : Prop where
  literals : k.literals.get? symbol = k'.literals.get? symbol
  globals : k.globals.contains symbol = k'.globals.contains symbol
  defaults : k.defaults.get? symbol = k'.defaults.get? symbol

theorem ModuleContext.sameModule (ctx : ModuleContext) (known known' : Classification)
    (portable portable' : Bool) :
    (ctx.scope known portable).SameModule (ctx.scope known' portable') := ⟨rfl, rfl, rfl⟩

namespace Scope

variable {s s' : Scope} {symbol : SymbolId}

/-- Scopes that agree on what the default refers to give it the same text. -/
theorem anew_congr (hs : s.SameModule s') {default : Expr}
    (hresolve : ∀ symbol ∈ default.referred, s.resolve symbol = s'.resolve symbol)
    (hdefaults : ∀ symbol ∈ default.referred,
      s.known.defaults.get? symbol = s'.known.defaults.get? symbol) (ty : Ty) :
    s.anew ty default = s'.anew ty default := by
  have honest : ∀ slot ∈ default.filled, slot.Honest (· = .unkept) s s' := by
    intro slot hslot
    cases slot with
    | required => trivial
    | optional param given id other =>
        apply Slot.honest_unkept
        intro symbol hplain
        apply hdefaults
        exact Expr.referred_of_filled default hslot (Expr.mem_referred_of_plainName? hplain)
  exact ((Rendering.follows_renderAs hs hresolve honest ty).2 .unkept rfl).1

theorem resolve_congr (hs : s.SameModule s') (hq : s.qualifyAll = s'.qualifyAll)
    (h : s.known.SameReference s'.known symbol) : s.resolve symbol = s'.resolve symbol := by
  simp only [resolve, functionReference, variableReference, qualified, hs.program, hs.module, hq,
    h.literals, h.globals]

/-- Only the names that a module declares depend on whether the module's own names are qualified. -/
theorem resolve_congr_of_foreign (hs : s.SameModule s') (hknown : s.known = s'.known)
    (h : (s.program.symbol symbol).module = some s.module →
      s.known.literals.contains symbol) : s.resolve symbol = s'.resolve symbol := by
  unfold resolve
  rw [← hknown]
  cases hliteral : s.known.literals.get? symbol with
  | some text => rfl
  | none =>
      have foreign : (s.program.symbol symbol).module ≠ some s.module := by
        intro hhome
        have literal := h hhome
        rw [Table.contains, hliteral] at literal
        cases literal
      simp only [functionReference, variableReference, hs.program] at foreign ⊢
      cases howner : (s'.program.symbol symbol).module with
      | none => rfl
      | some owner =>
          have other : owner ≠ s'.module := by
            rintro rfl
            exact foreign (by rw [howner, hs.module])
          simp [qualified, hs.module, hs.program, hknown, other]

/-- The reference is a literal, or it carries the namespace of the module that owns the symbol. -/
def Qualifies (s : Scope) (symbol : SymbolId) : Prop :=
  ∀ owner, (s.program.symbol symbol).module = some owner →
    s.known.literals.get? symbol = some (s.resolve symbol) ∨
      ∃ name, s.resolve symbol = s.program.namespaceOf owner ++ "::" ++ name

/-- In a text for any module, functions and the constants known so far are qualified. -/
theorem qualifies_of_qualifyAll (hq : s.qualifyAll = true)
    (h : (s.program.symbol symbol).isFunction ∨ s.known.literals.contains symbol ∨
      s.known.globals.contains symbol) : s.Qualifies symbol := by
  intro owner howner
  unfold resolve
  cases hliteral : s.known.literals.get? symbol with
  | some text => exact .inl rfl
  | none =>
      have entered : (s.program.symbol symbol).isFunction ∨ s.known.globals.contains symbol := by
        simpa [Table.contains, hliteral] using h
      refine .inr ?_
      cases hfunction : (s.program.symbol symbol).isFunction with
      | true =>
          exact ⟨s.program.functionName (s.program.symbol symbol),
            by simp [hfunction, functionReference, howner, qualified, hq]⟩
      | false =>
          have global : s.known.globals.contains symbol := by simpa [hfunction] using entered
          exact ⟨Text.unqualified (s.program.symbol symbol).name,
            by simp [hfunction, variableReference, howner, global, qualified, hq]⟩

end Scope

/-- The default is filled in when the expression is rendered, and is no plain name. -/
def Expr.Fills (e : Expr) (ty : Ty) (id : ExprId) (default : Expr) : Prop :=
  default.plainName? = none ∧ ∃ param, .optional param ty id default ∈ e.filled

def Constant.isLiteral (c : Constant) : Bool :=
  c.init.any fun init => !init.isAggregate && init.isLiteral .empty

def Unlisted (cs : List Constant) (symbol : SymbolId) : Prop := ∀ c ∈ cs, c.symbol ≠ symbol

namespace Program

/-- The module renders the expression, for its place (`false`) or for any module (`true`). -/
inductive RendersAt (p : Program) (m : ModuleId) : Bool → Expr → Prop
  | constant {c : Constant} {init : Expr} : c ∈ (p.module m).constants → c.init = some init →
      RendersAt p m (p.symbol c.symbol).isPlaceholder init
  | body {f : Function} {e : Expr} : f ∈ (p.module m).functions → e ∈ Stmt.exprsAll f.body →
      RendersAt p m false e

def FillsAt (p : Program) (m : ModuleId) (portable : Bool) (ty : Ty) (id : ExprId)
    (default : Expr) : Prop :=
  ∃ e, p.RendersAt m portable e ∧ e.Fills ty id default

/-- Wherever the module fills in a default, it has the same text. -/
structure SharesDefaults (p : Program) (m : ModuleId) : Prop where
  /-- An identity stands for one expression, which is converted to one type. -/
  alike : ∀ {portable portable' ty ty' id default default'}, p.FillsAt m portable ty id default →
    p.FillsAt m portable' ty' id default' → ty = ty' ∧ default = default'
  /-- Of the module's own symbols, a default for a placeholder and another place refers to literals
  alone. -/
  apart : ∀ {ty id default}, p.FillsAt m true ty id default → p.FillsAt m false ty id default →
    ∀ symbol ∈ default.referred, (p.symbol symbol).module = some m →
      ∃ c ∈ (p.module m).constants, c.symbol = symbol ∧ c.isLiteral
  /-- The constants that a default refers to are listed before the constants that it is for. -/
  ordered : ∀ {before c after init ty id default},
    (p.module m).constants = before ++ c :: after → c.init = some init →
    init.Fills ty id default → ∀ symbol ∈ default.referred, Unlisted (c :: after) symbol

end Program
end ColorLowering
