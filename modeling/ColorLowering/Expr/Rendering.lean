import ColorLowering.Aggregate.Braces
import ColorLowering.Failure
import ColorLowering.Scope
import ColorLowering.Text.Quoted
import ColorLowering.Ty.Declaration

/-!
# The text of an expression

Binary operations are always parenthesized, and an operand is converted to the type that its context
asks for. The arguments that a call omits are the defaults of its last parameters; the text of a
default that is no plain name is rendered once for each module that uses it.
-/
namespace ColorLowering

/-- The texts of default expressions, by expression and calling module. Where none are kept, each
call that omits an argument renders its default anew. -/
structure DefaultTexts where
  kept : Option (Table (ExprId × ModuleId) String)

namespace DefaultTexts

def empty : DefaultTexts := ⟨some .empty⟩

def unkept : DefaultTexts := ⟨none⟩

def get? (t : DefaultTexts) (key : ExprId × ModuleId) : Option String :=
  t.kept.bind (·.get? key)

def insert (t : DefaultTexts) (key : ExprId × ModuleId) (text : String) : DefaultTexts :=
  ⟨t.kept.map (·.insert key text)⟩

end DefaultTexts

/-- Rendering reads the scope and may only add to the texts of defaults. -/
abbrev Rendering := ReaderT Scope (ExceptT Failure (StateM DefaultTexts))

namespace Rendering

theorem bind_apply {α β : Type} (x : Rendering α) (f : α → Rendering β) (scope : Scope)
    (texts : DefaultTexts) :
    (x >>= f) scope texts = match x scope texts with
      | (.ok a, texts') => f a scope texts'
      | (.error e, texts') => (.error e, texts') := by
  simp only [bind, ReaderT.bind, ExceptT.bind, ExceptT.mk, StateT.bind]
  rcases x scope texts with ⟨_ | _, _⟩ <;> rfl

/-- A rendering that succeeds went through both parts. -/
theorem bind_eq_ok {α β : Type} {x : Rendering α} {f : α → Rendering β} {scope : Scope}
    {texts texts'' : DefaultTexts} {b : β} :
    (x >>= f) scope texts = (.ok b, texts'') ↔
      ∃ a texts', x scope texts = (.ok a, texts') ∧ f a scope texts' = (.ok b, texts'') := by
  rw [bind_apply]
  constructor
  · intro h
    cases hx : x scope texts with
    | mk result texts' =>
        rw [hx] at h
        cases result with
        | error e => cases h
        | ok a => exact ⟨a, texts', rfl, h⟩
  · rintro ⟨a, texts', hx, hf⟩
    rw [hx]
    exact hf

@[simp] theorem pure_apply {α : Type} (a : α) (scope : Scope) (texts : DefaultTexts) :
    (pure a : Rendering α) scope texts = (.ok a, texts) := rfl

@[simp] theorem throw_apply {α : Type} (e : Failure) (scope : Scope) (texts : DefaultTexts) :
    (throw e : Rendering α) scope texts = (.error e, texts) := rfl

end Rendering

def Literal.text : Literal → String
  | .scalar v => v.text
  | .string s => Text.Quoted.encode s

/-- A sign is not joined to an operand that begins with the same one. -/
def unaryText (token operand : String) : String :=
  if operand.front? = token.front? then token ++ "(" ++ operand ++ ")"
  else token ++ operand

def callText (function : String) (args : List String) : String :=
  if args.isEmpty then function ++ "()" else function ++ parenthesized (commaSeparated args)

namespace Rendering

def resolved (symbol : SymbolId) : Rendering String := do
  return (← read).resolve symbol

def cast (wanted given : Ty) (text : String) : Rendering String := do
  return (← read).target.cast wanted given text

def checkLeaves (ty : Ty) (object : String) (found : Nat) : Rendering Unit :=
  match ty.leafCount? with
  | some needed => if found = needed then pure () else throw (.leafMismatch object found needed)
  | none => throw .unresolved

theorem checkLeaves_of_leafCount? {ty : Ty} {needed : Nat} (h : ty.leafCount? = some needed)
    (object : String) (found : Nat) : checkLeaves ty object found =
      if found = needed then pure () else throw (.leafMismatch object found needed) := by
  rw [checkLeaves, h]

theorem checkLeaves_of_leafCount?_none {ty : Ty} (h : ty.leafCount? = none) (object : String)
    (found : Nat) : checkLeaves ty object found = throw .unresolved := by
  rw [checkLeaves, h]

/-- The check lets the leaves pass if they are as many as are counted, and stops otherwise. -/
theorem checkLeaves_cases (ty : Ty) (object : String) (found : Nat) :
    (ty.leafCount? = some found ∧ checkLeaves ty object found = pure ()) ∨
      ∃ e, checkLeaves ty object found = throw e := by
  cases h : ty.leafCount? with
  | none => exact .inr ⟨_, checkLeaves_of_leafCount?_none h object found⟩
  | some needed =>
      rw [checkLeaves_of_leafCount? h]
      by_cases hfound : found = needed
      · exact .inl ⟨by rw [hfound], if_pos hfound⟩
      · exact .inr ⟨_, if_neg hfound⟩

def layOut {α : Type} (layout : Leaves α) (texts : List String) : Rendering α :=
  match layout.run texts with
  | some (result, _) => pure result
  | none => throw (.leafMismatch "" texts.length (texts.length + 1))

/-- How an aggregate of this type is written as a value: what is spelled before its leaves and
whether they are constructor arguments. -/
def temporary (ty : Ty) : Rendering (String × Bool) := do
  let target := (← read).target
  match target.nativeSpelling? ty with
  | some spelling => return (spelling, true)
  | none =>
    if target.isModern then return (target.spelling ty, false)
    else throw (.unsupported .legacyTemporary)

def layOutTemporary (ty : Ty) (spelling : String) (isNative : Bool) (texts : List String) :
    Rendering String := do
  if isNative then
    return spelling ++ parenthesized (commaSeparated (← layOut (Leaves.flat ty) texts))
  else return spelling ++ (← layOut ((← read).target.braces ty) texts)

/-- The default expression `default`, rendered by `text` unless its text is known. -/
def defaultText (ty : Ty) (id : ExprId) (default : Expr) (text : Rendering String) :
    Rendering String := do
  let scope ← read
  match default with
  | .name given symbol =>
    match scope.known.defaults.get? symbol with
    | some known => return known
    | none => return scope.target.cast ty given (scope.resolve symbol)
  | _ =>
    match (← get).get? (id, scope.module) with
    | some known => return known
    | none =>
      let fresh := scope.target.cast ty default.ty (← text)
      modify (·.insert (id, scope.module) fresh)
      return fresh

end Rendering

def arraySizeText (ty : Ty) : Rendering String :=
  match ty with
  | .array _ (size + 1) => pure (toString (size + 1))
  | _ => throw (.unsupported .unsizedArray)

open Rendering in
mutual
def Expr.render : Expr → Rendering String
  | .literal _ value => pure value.text
  | .name _ symbol => resolved symbol
  | .binary _ op operandTy left right => do
    let l ← cast operandTy left.ty (← left.render)
    let r ← cast operandTy right.ty (← right.render)
    return "(" ++ l ++ " " ++ op.token ++ " " ++ r ++ ")"
  | .unary ty op operand => do
    return unaryText op.token (← cast ty operand.ty (← operand.render))
  | .index _ array position => do
    let a ← array.render
    let i ← cast (.scalar .int) position.ty (← position.render)
    return a ++ "[" ++ i ++ "]"
  | .member _ object field => do return (← object.render) ++ "." ++ field
  | .call _ (.function symbol slots) args => do
    let function ← resolved symbol
    if slots.length < args.length then
      throw (.tooManyArguments function args.length slots.length)
    let supplied ← Expr.renderAll (slots.map Slot.ty) args
    let omitted ← Expr.renderDefaults function args.length slots
    return callText function (supplied ++ omitted)
  | .call _ (.variable symbol) _ => do throw (.notAFunction ((← read).program.symbol symbol).name)
  | .call _ .computed _ => throw (.unsupported .computedCallee)
  | .aggregate ty leaves => do
    let (spelling, isNative) ← temporary ty
    checkLeaves ty spelling leaves.length
    let texts ← Expr.renderAll ty.leaves leaves
    layOutTemporary ty spelling isNative texts
  | .size _ array => arraySizeText array.ty
  | .unresolved _ => throw .unresolved

/-- Each expression converted to the type at its place. -/
def Expr.renderAll : List Ty → List Expr → Rendering (List String)
  | ty :: tys, e :: es => do
    let first ← cast ty e.ty (← e.render)
    return first :: (← Expr.renderAll tys es)
  | _, _ => pure []

/-- The defaults for the slots after the first `supplied`. -/
def Expr.renderDefaults (function : String) :
    (supplied : Nat) → List Slot → Rendering (List String)
  | _, [] => pure []
  | supplied + 1, _ :: rest => Expr.renderDefaults function supplied rest
  | 0, .required param _ :: _ => throw (.missingArgument param function)
  | 0, .optional _ ty id default :: rest => do
    let first ← defaultText ty id default default.render
    return first :: (← Expr.renderDefaults function 0 rest)
end

namespace Expr

/-- The expression converted to `ty`. -/
def renderAs (e : Expr) (ty : Ty) : Rendering String := do
  Rendering.cast ty e.ty (← e.render)

def leafTexts (ty : Ty) (object : String) (leaves : List Expr) : Rendering (List String) := do
  Rendering.checkLeaves ty object leaves.length
  renderAll ty.leaves leaves

end Expr
end ColorLowering
