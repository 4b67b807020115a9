import ColorLowering.Proofs.Constants.Deferral
import ColorLowering.Proofs.Session.ForwardDeclarations

/-!
# The scan of an initializer

The callees of an initializer are noted node by node: a walk through the whole tree enters each one
that belongs to the module and answers whether there was any. The walk never stops early, so what it
enters is the list of callees at home, and the answer says whether this list is empty.
-/
namespace ColorLowering

namespace Classification

theorem addCallees_append (k : Classification) (first second : List SymbolId) :
    k.addCallees (first ++ second) = (k.addCallees first).addCallees second := by
  simp only [addCallees, List.foldl_append]

end Classification

namespace Emission

def noteCallee (callee : Callee) : Emission Bool := do
  match callee.symbol? with
  | none => return false
  | some f =>
    if (← read).isHome f then
      setKnown ((← known).addCallees [f])
      return true
    else return false

def eitherNotes (first second : Emission Bool) : Emission Bool := do
  let noted ← first
  let more ← second
  return noted || more

mutual
def scanCallees : Expr → Emission Bool
  | .literal .. => return false
  | .name .. => return false
  | .binary _ _ _ left right => eitherNotes (scanCallees left) (scanCallees right)
  | .unary _ _ operand => scanCallees operand
  | .index _ array position => eitherNotes (scanCallees array) (scanCallees position)
  | .member _ object _ => scanCallees object
  | .call _ callee args => eitherNotes (noteCallee callee) (scanCalleesAll args)
  | .aggregate _ leaves => scanCalleesAll leaves
  | .size _ array => scanCallees array
  | .unresolved _ => return false

def scanCalleesAll : List Expr → Emission Bool
  | [] => return false
  | e :: es => eitherNotes (scanCallees e) (scanCalleesAll es)
end

variable {ctx : ModuleContext}

/-- A walk that enters the symbols and nothing else, from any state. -/
def Notes (ctx : ModuleContext) (walk : Emission Bool) (symbols : List SymbolId) : Prop :=
  ∀ s, walk ctx s = (.ok (!symbols.isEmpty), s.withKnown (s.tables.known.addCallees symbols))

theorem Notes.nothing : Notes ctx (return false) [] := fun _ => rfl

theorem Notes.either {first second : Emission Bool} {noted more : List SymbolId}
    (hfirst : Notes ctx first noted) (hsecond : Notes ctx second more) :
    Notes ctx (eitherNotes first second) (noted ++ more) := by
  intro s
  simp only [eitherNotes, bind_apply, hfirst s, hsecond _, pure_apply]
  refine Prod.ext (congrArg Except.ok ?_) ?_
  · cases noted <;> rfl
  · rw [Classification.addCallees_append]
    rfl

theorem notes_noteCallee (callee : Callee) :
    Notes ctx (noteCallee callee) (callee.symbol?.toList.filter ctx.isHome) := by
  intro s
  unfold noteCallee
  cases callee.symbol? with
  | none => rfl
  | some f =>
      simp only [bind_apply, read_apply, Option.toList_some]
      cases hhome : ctx.isHome f with
      | true =>
          rw [if_pos rfl, List.filter_singleton, hhome]
          rfl
      | false =>
          rw [if_neg Bool.false_ne_true, List.filter_singleton, hhome]
          rfl

mutual
theorem notes_scanCallees : (e : Expr) → Notes ctx (scanCallees e) (ctx.homeCallees e)
  | .literal .. => .nothing
  | .name .. => .nothing
  | .binary _ _ _ left right => by
      rw [scanCallees, ModuleContext.homeCallees, Expr.callees, List.filter_append]
      exact (notes_scanCallees left).either (notes_scanCallees right)
  | .unary _ _ operand => notes_scanCallees operand
  | .index _ array position => by
      rw [scanCallees, ModuleContext.homeCallees, Expr.callees, List.filter_append]
      exact (notes_scanCallees array).either (notes_scanCallees position)
  | .member _ object _ => notes_scanCallees object
  | .call _ callee args => by
      rw [scanCallees, ModuleContext.homeCallees, Expr.callees, List.filter_append]
      exact (notes_noteCallee callee).either (notes_scanCalleesAll args)
  | .aggregate _ leaves => notes_scanCalleesAll leaves
  | .size _ array => notes_scanCallees array
  | .unresolved _ => .nothing

theorem notes_scanCalleesAll : (es : List Expr) →
    Notes ctx (scanCalleesAll es) ((Expr.calleesAll es).filter ctx.isHome)
  | [] => .nothing
  | e :: es => by
      rw [scanCalleesAll, Expr.calleesAll, List.filter_append]
      exact (notes_scanCallees e).either (notes_scanCalleesAll es)
end

/-- What the survey does with an initializer that is no literal is this walk; its answer decides
whether the constant needs the module initializer. -/
theorem surveyCallees_eq_scan (symbol : SymbolId) (init : Expr) : surveyCallees symbol init = (do
    let needed ← scanCallees init
    if needed && !((← read).program.symbol symbol).isPlaceholder then
      setKnown ((← known).addNeedsModuleInit symbol)) := by
  funext ctx
  funext s
  simp only [surveyCallees, bind_apply, read_apply, known_apply, notes_scanCallees init s]
  cases (ctx.homeCallees init).isEmpty <;> cases (ctx.program.symbol symbol).isPlaceholder <;> rfl

/-- The scan of an initializer is exhaustive and exact. From any state it enters the symbols of the
module that are the callee of a call anywhere in the tree, touches nothing else, and answers whether
there is such a call. -/
theorem scan_notes_exactly_the_calls_at_home (init : Expr) (symbol : SymbolId) :
    (∀ ctx s, ∃ needed called,
      scanCallees init ctx s =
        (.ok needed, s.withKnown { s.tables.known with calledInInit := called }) ∧
      (∀ f, called.contains f = true ↔ s.tables.known.calledInInit.contains f = true ∨
        (init.Calls f ∧ (ctx.program.symbol f).module = some ctx.module)) ∧
      (needed = true ↔ ∃ f, init.Calls f ∧ (ctx.program.symbol f).module = some ctx.module)) ∧
    surveyCallees symbol init = (do
      let needed ← scanCallees init
      if needed && !((← read).program.symbol symbol).isPlaceholder then
        setKnown ((← known).addNeedsModuleInit symbol)) := by
  refine ⟨fun ctx s => ?_, surveyCallees_eq_scan symbol init⟩
  have mem_home (f : SymbolId) : f ∈ ctx.homeCallees init ↔
      init.Calls f ∧ (ctx.program.symbol f).module = some ctx.module := by
    simp [ModuleContext.homeCallees, ModuleContext.isHome, Expr.mem_callees_iff]
  refine ⟨_, _, notes_scanCallees init s, fun f => ?_, ?_⟩
  · rw [← mem_home]
    exact Classification.contains_addCallees _ _ f
  · rw [Bool.not_eq_true', List.isEmpty_eq_false_iff_exists_mem]
    exact exists_congr mem_home

end Emission
end ColorLowering
