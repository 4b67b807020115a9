import ColorLowering.Proofs.Defaults.Sharing
import ColorLowering.Proofs.Reading.Lists

/-!
# Legible programs

An expression is legible if what it names are identifiers, what it calls are functions, what it
builds are arrays and structs, and what it takes a part of is no literal. Nothing is asked of the
places where conversions, literals and defaults are put: their texts have to keep together wherever
they come.
-/
namespace ColorLowering

open Cpp

/-- The constant is built from literals alone, those of other such constants included. -/
inductive Program.Literal (p : Program) : SymbolId → Prop
  | constant {m : ModuleId} {c : Constant} {init : Expr} {literals : Table SymbolId String} :
      c ∈ (p.module m).constants → c.init = some init → init.isAggregate = false →
      init.isLiteral literals → (∀ symbol, literals.contains symbol → Literal p symbol) →
      Literal p c.symbol

def Expr.IsBase (p : Program) : Expr → Prop
  | .name _ symbol => ¬p.Literal symbol
  | .index .. => True
  | .member .. => True
  | .call .. => True
  | .aggregate .. => True
  | _ => False

mutual
def Expr.Legible (p : Program) : Expr → Prop
  | .literal .. => True
  | .name _ symbol => isIdentifier (p.symbol symbol).name.toList
  | .binary _ _ _ left right => left.Legible p ∧ right.Legible p
  | .unary _ _ operand => operand.Legible p
  | .index _ array position => array.IsBase p ∧ array.Legible p ∧ position.Legible p
  | .member _ object field => object.IsBase p ∧ object.Legible p ∧ isIdentifier field.toList
  | .call _ (.function symbol slots) args =>
    (p.symbol symbol).isFunction ∧ isIdentifier (p.symbol symbol).name.toList ∧
      Expr.AllLegible p args ∧ Expr.SlotsLegible p slots
  | .call _ (.variable _) _ => True
  | .call _ .computed _ => True
  | .aggregate ty leaves => ty.isComposite ∧ ty.Named ∧ Expr.AllLegible p leaves
  | .size .. => True
  | .unresolved _ => True

def Expr.AllLegible (p : Program) : List Expr → Prop
  | [] => True
  | e :: es => e.Legible p ∧ Expr.AllLegible p es

def Expr.SlotsLegible (p : Program) : List Slot → Prop
  | [] => True
  | .required .. :: rest => Expr.SlotsLegible p rest
  | .optional _ _ _ default :: rest => default.Legible p ∧ Expr.SlotsLegible p rest
end

/-- Constants are variables, and all that the modules render is legible. -/
structure Program.Legible (p : Program) : Prop where
  constants : ∀ m, ∀ c ∈ (p.module m).constants, (p.symbol c.symbol).isFunction = false
  rendered : ∀ m portable e, p.RendersAt m portable e → e.Legible p
  /-- An aggregate is the value of an array or a struct. -/
  aggregates : ∀ m, ∀ c ∈ (p.module m).constants, ∀ init, c.init = some init → init.isAggregate →
    (p.symbol c.symbol).ty.isComposite ∧ (p.symbol c.symbol).ty.Named

structure Classification.Readable (p : Program) (k : Classification) : Prop where
  literal : ∀ symbol text, k.literals.get? symbol = some text → p.Literal symbol
  literals : ∀ symbol text, k.literals.get? symbol = some text → ∃ tree, ReadsAs text tree
  defaults : ∀ symbol text, k.defaults.get? symbol = some text → ∃ tree, ReadsAs text tree

def DefaultTexts.Readable (texts : DefaultTexts) : Prop :=
  ∀ key text, texts.get? key = some text → ∃ tree, ReadsAs text tree

end ColorLowering
