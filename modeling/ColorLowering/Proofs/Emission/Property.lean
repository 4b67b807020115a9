import ColorLowering.Module.Text
import ColorLowering.Proofs.Dialect.Targets

/-!
# What holds of every emitter

Emitters are put together from a few steps. A property of emitters that these steps have, and that
is kept where they are put together, is one of every emitter. Which expressions may be rendered, and
which symbols entered as constants, is left to the property. A property may look at an emitter in
two modules at once, provided that both say the same of what the emitter reads. Where their targets
differ in the dialect, this has to be said of each symbol that is declared.
-/
namespace ColorLowering

mutual
def Stmt.exprs : Stmt → List Expr
  | .declare _ init => init.toList
  | .assign target value => [target, value]
  | .eval e => [e]
  | .branch cond thenBody elseBody => cond :: (Stmt.exprsAll thenBody ++ Stmt.exprsAll elseBody)
  | .loop cond body => cond :: Stmt.exprsAll body
  | .ret value => value.toList
  | .unresolved => []

def Stmt.exprsAll : List Stmt → List Expr
  | [] => []
  | s :: rest => s.exprs ++ Stmt.exprsAll rest
end

mutual
def Stmt.locals : Stmt → List SymbolId
  | .declare symbol _ => [symbol]
  | .branch _ thenBody elseBody => Stmt.localsAll thenBody ++ Stmt.localsAll elseBody
  | .loop _ body => Stmt.localsAll body
  | _ => []

def Stmt.localsAll : List Stmt → List SymbolId
  | [] => []
  | s :: rest => s.locals ++ Stmt.localsAll rest
end

mutual
/-- The variables that a statement declares, each with its initializer. -/
def Stmt.declarations : Stmt → List (SymbolId × Option Expr)
  | .declare symbol init => [(symbol, init)]
  | .branch _ thenBody elseBody =>
    Stmt.declarationsAll thenBody ++ Stmt.declarationsAll elseBody
  | .loop _ body => Stmt.declarationsAll body
  | _ => []

def Stmt.declarationsAll : List Stmt → List (SymbolId × Option Expr)
  | [] => []
  | s :: rest => s.declarations ++ Stmt.declarationsAll rest
end

mutual
/-- The expressions of a statement that initialize no variable. -/
def Stmt.values : Stmt → List Expr
  | .declare .. => []
  | .assign target value => [target, value]
  | .eval e => [e]
  | .branch cond thenBody elseBody => cond :: (Stmt.valuesAll thenBody ++ Stmt.valuesAll elseBody)
  | .loop cond body => cond :: Stmt.valuesAll body
  | .ret value => value.toList
  | .unresolved => []

def Stmt.valuesAll : List Stmt → List Expr
  | [] => []
  | s :: rest => s.values ++ Stmt.valuesAll rest
end

namespace Stmt

variable {d : SymbolId × Option Expr}

mutual
theorem of_mem_declarations :
    (s : Stmt) → d ∈ s.declarations → d.1 ∈ s.locals ∧ ∀ e ∈ d.2, e ∈ s.exprs
  | .declare symbol init, h => by
      obtain rfl := List.mem_singleton.mp h
      exact ⟨List.mem_singleton.mpr rfl, fun e he => Option.mem_toList.mpr he⟩
  | .branch cond thenBody elseBody, h => by
      rw [declarations, List.mem_append] at h
      simp only [locals, exprs, List.mem_append, List.mem_cons]
      rcases h with h | h
      · obtain ⟨hlocal, hinit⟩ := of_mem_declarationsAll thenBody h
        exact ⟨.inl hlocal, fun e he => .inr (.inl (hinit e he))⟩
      · obtain ⟨hlocal, hinit⟩ := of_mem_declarationsAll elseBody h
        exact ⟨.inr hlocal, fun e he => .inr (.inr (hinit e he))⟩
  | .loop cond body, h => by
      obtain ⟨hlocal, hinit⟩ := of_mem_declarationsAll body h
      exact ⟨hlocal, fun e he => List.mem_cons_of_mem _ (hinit e he)⟩
  | .assign .., h | .eval _, h | .ret _, h | .unresolved, h => by cases h

theorem of_mem_declarationsAll :
    (ss : List Stmt) → d ∈ declarationsAll ss → d.1 ∈ localsAll ss ∧ ∀ e ∈ d.2, e ∈ exprsAll ss
  | [], h => by cases h
  | s :: rest, h => by
      rw [declarationsAll, List.mem_append] at h
      simp only [localsAll, exprsAll, List.mem_append]
      rcases h with h | h
      · obtain ⟨hlocal, hinit⟩ := of_mem_declarations s h
        exact ⟨.inl hlocal, fun e he => .inl (hinit e he)⟩
      · obtain ⟨hlocal, hinit⟩ := of_mem_declarationsAll rest h
        exact ⟨.inr hlocal, fun e he => .inr (hinit e he)⟩
end

mutual
theorem values_subset_exprs : (s : Stmt) → s.values ⊆ s.exprs
  | .declare .. => List.nil_subset _
  | .branch cond thenBody elseBody => List.cons_subset_cons cond (List.append_subset.mpr
      ⟨List.subset_append_of_subset_left _ (valuesAll_subset_exprsAll thenBody),
        List.subset_append_of_subset_right _ (valuesAll_subset_exprsAll elseBody)⟩)
  | .loop cond body => List.cons_subset_cons cond (valuesAll_subset_exprsAll body)
  | .assign .. | .eval _ | .ret _ | .unresolved => List.Subset.refl _

theorem valuesAll_subset_exprsAll : (ss : List Stmt) → valuesAll ss ⊆ exprsAll ss
  | [] => List.nil_subset _
  | s :: rest => List.append_subset.mpr
      ⟨List.subset_append_of_subset_left _ (values_subset_exprs s),
        List.subset_append_of_subset_right _ (valuesAll_subset_exprsAll rest)⟩
end

end Stmt

namespace ModuleContext

/-- The same module of two programs that differ in nothing but the names of symbols. -/
structure Alike (ctx ctx' : ModuleContext) : Prop where
  target : ctx.target = ctx'.target
  module : ctx.module = ctx'.module
  modules : ctx.program.modules = ctx'.program.modules
  owner : ∀ symbol, (ctx.program.symbol symbol).module = (ctx'.program.symbol symbol).module
  kind : ∀ symbol, (ctx.program.symbol symbol).kind = (ctx'.program.symbol symbol).kind

/-- The same module of two such programs, for targets that differ in their dialect at most. -/
structure Kindred (ctx ctx' : ModuleContext) : Prop where
  target : ctx.target.Akin ctx'.target
  module : ctx.module = ctx'.module
  modules : ctx.program.modules = ctx'.program.modules

abbrev SameSymbol (ctx ctx' : ModuleContext) (symbol : SymbolId) : Prop :=
  ctx.program.symbol symbol = ctx'.program.symbol symbol

structure DeclaresAlike (ctx ctx' : ModuleContext) (symbol : SymbolId) : Prop where
  same : ctx.SameSymbol ctx' symbol
  declare : ∀ name mode, ctx.target.declare name (ctx.program.symbol symbol).ty mode =
    ctx'.target.declare name (ctx.program.symbol symbol).ty mode

structure HeadsAlike (ctx ctx' : ModuleContext) (symbol : SymbolId) : Prop where
  same : ctx.SameSymbol ctx' symbol
  params : ∀ params ret, (ctx.program.symbol symbol).kind = .fn params ret →
    parameterList ctx.target params = parameterList ctx'.target params

namespace Kindred

variable {ctx ctx' : ModuleContext} (h : ctx.Kindred ctx')
include h

theorem moduleOf (m : ModuleId) : ctx.program.module m = ctx'.program.module m := by
  rw [Program.module, h.modules, Program.module]

theorem namespaceText : ctx.namespaceText = ctx'.namespaceText := by
  rw [ModuleContext.namespaceText, Program.namespaceOf, h.moduleOf, h.module,
    ModuleContext.namespaceText, Program.namespaceOf]

theorem isEntry : ctx.program.isEntry = ctx'.program.isEntry := by
  funext s
  simp only [Program.isEntry, h.moduleOf]

theorem functionName : ctx.program.functionName = ctx'.program.functionName := by
  funext s
  simp only [Program.functionName, Program.namespaceOf, h.moduleOf]

end Kindred

namespace Alike

theorem refl (ctx : ModuleContext) : ctx.Alike ctx := ⟨rfl, rfl, rfl, fun _ => rfl, fun _ => rfl⟩

variable {ctx ctx' : ModuleContext} (h : ctx.Alike ctx')
include h

theorem kindred : ctx.Kindred ctx' := ⟨.of_eq h.target, h.module, h.modules⟩

theorem moduleOf (m : ModuleId) : ctx.program.module m = ctx'.program.module m :=
  h.kindred.moduleOf m

theorem namespaceText : ctx.namespaceText = ctx'.namespaceText := h.kindred.namespaceText

theorem declares {symbol : SymbolId} (hsame : ctx.SameSymbol ctx' symbol) :
    ctx.DeclaresAlike ctx' symbol :=
  ⟨hsame, fun _ _ => by rw [h.target]⟩

theorem heads {symbol : SymbolId} (hsame : ctx.SameSymbol ctx' symbol) :
    ctx.HeadsAlike ctx' symbol :=
  ⟨hsame, fun _ _ _ => by rw [h.target]⟩

theorem isHome : ctx.isHome = ctx'.isHome := by
  funext symbol
  simp only [ModuleContext.isHome, h.owner, h.module]

theorem isForced {c : Constant} (hplaceholder : (ctx.program.symbol c.symbol).isPlaceholder =
      (ctx'.program.symbol c.symbol).isPlaceholder) (k : Classification) :
    Emission.isForced ctx k c = Emission.isForced ctx' k c := by
  simp only [Emission.isForced, readsDeferred, h.isHome, h.target, hplaceholder]

end Alike
end ModuleContext

namespace Emission

variable {ctx ctx' : ModuleContext} {Same : Classification → Classification → Prop}
  {Renders : Bool → Expr → Prop} {Enters : Constant → Prop}
  {P : {α : Type} → Emission α → Prop}

def opening (m : Module) : Emission Unit := do
  let ns := (← read).namespaceText
  blank
  line ("// Module " ++ m.name ++ " (" ++ m.file ++ ")")
  blank
  line ("namespace " ++ ns ++ " \x7b")
  blank
  m.structs.forM structDefinition

theorem heading_eq (m : Module) :
    heading m = (do surveyConstants m.constants; opening m; forwardDeclarations m.functions) := by
  simp only [heading, opening, bind_assoc]

/-- Where `Same` holds of what is known in both modules, a function is declared alike. -/
structure SameFunction (ctx ctx' : ModuleContext) (Same : Classification → Classification → Prop)
    (symbol : SymbolId) : Prop where
  same : ctx.SameSymbol ctx' symbol
  called : ∀ k k', Same k k' → k.calledInInit.contains symbol = k'.calledInInit.contains symbol

/-- Where `Same` holds of what is known in both modules, the constant takes the same route. -/
structure SameConstant (ctx ctx' : ModuleContext) (Same : Classification → Classification → Prop)
    (c : Constant) : Prop where
  same : ctx.SameSymbol ctx' c.symbol
  literal : ∀ k k', Same k k' → k.literals.contains c.symbol = k'.literals.contains c.symbol
  forced : ∀ k k', Same k k' → isForced ctx k c = isForced ctx k' c

theorem SameFunction.refl (symbol : SymbolId) : SameFunction ctx ctx Eq symbol :=
  ⟨rfl, fun _ _ h => by rw [h]⟩

theorem SameConstant.refl (c : Constant) : SameConstant ctx ctx Eq c :=
  ⟨rfl, fun _ _ h => by rw [h], fun _ _ h => by rw [h]⟩

/-- The property holds of the steps that statements are put together from in the module of `ctx` and
`ctx'`, where the expressions that `Renders` and `Initializes` admit are rendered as values and as
initializers, and `Same` holds of what is known in both. -/
structure EmitterProperty (ctx ctx' : ModuleContext)
    (Same : Classification → Classification → Prop) (Renders Initializes : Expr → Prop)
    (P : {α : Type} → Emission α → Prop) : Prop where
  pure : ∀ {α : Type} (a : α), P (pure a : Emission α)
  throw : ∀ {α : Type} (e : Failure), P (throw e : Emission α)
  read : ∀ {α : Type} {f : ModuleContext → Emission α}, f ctx = f ctx' → P (f ctx) →
    P (MonadReader.read >>= f)
  known : ∀ {α : Type} {f : Classification → Emission α}, (∀ k k', Same k k' → f k = f k') →
    (∀ k, P (f k)) → P (Emission.known >>= f)
  bind : ∀ {α β : Type} {x : Emission α} {f : α → Emission β}, P x → (∀ a, P (f a)) → P (x >>= f)
  line : ∀ text, P (line text)
  blank : P blank
  bracedWith : ∀ tail {content : Emission Unit}, P content → P (bracedWith tail content)
  indented : ∀ {content : Emission Unit}, P content → P (indented content)
  render : ∀ {e : Expr}, Renders e → P (render e.render)
  renderAs : ∀ {e : Expr} (ty : Ty), Renders e → P (Emission.render (e.renderAs ty))
  initializer : ∀ {e : Expr} (strategy : Strategy) (ty : Ty) (object : String), Initializes e →
    P (Emission.render (Rendering.initializer strategy ty e object))

/-- The property holds of all that statements do in two modules for one target, where the
expressions that `Renders` admits are rendered for their place (`false`) or for any module
(`true`). -/
structure StatementProperty (ctx ctx' : ModuleContext)
    (Same : Classification → Classification → Prop) (Renders : Bool → Expr → Prop)
    (P : {α : Type} → Emission α → Prop) : Prop
    extends EmitterProperty ctx ctx' Same (Renders false) (Renders false) P where
  alike : ctx.Alike ctx'

structure FunctionProperty (ctx ctx' : ModuleContext)
    (Same : Classification → Classification → Prop) (Renders : Bool → Expr → Prop)
    (P : {α : Type} → Emission α → Prop) : Prop
    extends StatementProperty ctx ctx' Same Renders P where
  publish : ∀ name head symbol, P (publicDeclaration name head symbol)

structure ConstantProperty (ctx ctx' : ModuleContext)
    (Same : Classification → Classification → Prop) (Renders : Bool → Expr → Prop)
    (Enters : Constant → Prop) (P : {α : Type} → Emission α → Prop) : Prop
    extends StatementProperty ctx ctx' Same Renders P where
  global : ∀ {c : Constant} strategy declaration init, Enters c →
    P (declareGlobal strategy ⟨c.symbol, declaration, init⟩)
  placeholder : ∀ {c : Constant} {init : Expr} strategy, Enters c → c.init = some init →
    Renders true init →
    (strategy = .deferred ∨ ctx.target.strategy? (ctx.program.symbol c.symbol).ty = some strategy) →
    P (placeholderConstant c (Text.unqualified (ctx.program.symbol c.symbol).name)
      (ctx.program.symbol c.symbol).ty strategy)

namespace EmitterProperty

variable {Renders Initializes : Expr → Prop}
  (H : EmitterProperty ctx ctx' Same Renders Initializes P)

section
include H

theorem forM {α : Type} {items : List α} {f : α → Emission Unit} (hf : ∀ a ∈ items, P (f a)) :
    P (items.forM f) := by
  rw [List.forM_eq_forM]
  induction items with
  | nil => exact H.pure _
  | cons a rest ih =>
      rw [List.forM_cons]
      apply H.bind (hf a List.mem_cons_self)
      intro _
      exact ih fun b hb => hf b (List.mem_cons_of_mem _ hb)

theorem lines (texts : List String) : P (texts.forM Emission.line) :=
  H.forM fun text _ => H.line text

theorem localVariable {symbol : SymbolId} (hsymbol : ctx.DeclaresAlike ctx' symbol)
    {init : Option Expr} (hinit : ∀ e ∈ init, Initializes e) : P (localVariable symbol init) := by
  unfold Emission.localVariable
  apply H.read
  · rw [← hsymbol.same]
    simp only [hsymbol.declare]
  dsimp only
  split
  · exact H.line _
  · exact H.throw _
  · apply H.bind (H.initializer _ _ _ (hinit _ rfl))
    intro initializer
    cases initializer with
    | inline text => exact H.line _
    | deferred statements =>
        apply H.bind (H.line _)
        intro _
        exact H.bracedWith "" (H.lines statements)

theorem branch (statements : List Stmt) {content : Emission Unit} (hc : P content) :
    P (branch statements content) := by
  unfold Emission.branch
  split
  · split
    · exact H.bracedWith "" hc
    · exact H.indented hc
  · exact H.bracedWith "" hc

end

mutual
theorem statement (H : EmitterProperty ctx ctx' Same Renders Initializes P) (returnTy : Ty)
    (keyword : String) : (s : Stmt) →
      (∀ d ∈ s.declarations, ctx.DeclaresAlike ctx' d.1 ∧ ∀ e ∈ d.2, Initializes e) →
      (∀ e ∈ s.values, Renders e) → P (statement returnTy keyword s)
  | .declare symbol init, hdeclared, _ => by
      obtain ⟨hsymbol, hinit⟩ := hdeclared (symbol, init) (List.mem_singleton.mpr rfl)
      rw [Emission.statement]
      exact H.localVariable hsymbol hinit
  | .assign target value, _, h => by
      simp only [Stmt.values, List.mem_cons, List.not_mem_nil, or_false, forall_eq_or_imp,
        forall_eq] at h
      rw [Emission.statement]
      apply H.bind (H.render h.1)
      intro t
      apply H.bind (H.renderAs _ h.2)
      intro v
      exact H.line _
  | .eval e, _, h => by
      rw [Emission.statement]
      apply H.bind (H.render (h e (List.mem_singleton.mpr rfl)))
      intro text
      exact H.line _
  | .branch cond thenBody elseBody, hdeclared, h => by
      simp only [Stmt.values, Stmt.declarations, List.forall_mem_cons, List.forall_mem_append]
        at h hdeclared
      have thenPart := statements H returnTy "if" thenBody hdeclared.1 h.2.1
      have elsePart (keyword : String) := statements H returnTy keyword elseBody hdeclared.2 h.2.2
      rw [Emission.statement]
      apply H.bind (H.renderAs _ h.1)
      intro c
      apply H.bind (H.line _)
      intro _
      apply H.bind (H.branch _ thenPart)
      intro _
      split
      · exact H.pure _
      · split
        · exact elsePart "else if"
        · apply H.bind (H.line _)
          intro _
          exact H.branch _ (elsePart "if")
  | .loop cond body, hdeclared, h => by
      simp only [Stmt.values, List.forall_mem_cons] at h
      rw [Emission.statement]
      apply H.bind (H.renderAs _ h.1)
      intro c
      apply H.bind (H.line _)
      intro _
      exact H.bracedWith "" (statements H returnTy "if" body hdeclared h.2)
  | .ret none, _, _ => by
      rw [Emission.statement]
      exact H.line _
  | .ret (some value), _, h => by
      rw [Emission.statement]
      apply H.bind (H.renderAs _ (h value (List.mem_singleton.mpr rfl)))
      intro text
      exact H.line _
  | .unresolved, _, _ => by
      rw [Emission.statement]
      exact H.throw _

theorem statements (H : EmitterProperty ctx ctx' Same Renders Initializes P) (returnTy : Ty)
    (keyword : String) : (ss : List Stmt) →
      (∀ d ∈ Stmt.declarationsAll ss, ctx.DeclaresAlike ctx' d.1 ∧ ∀ e ∈ d.2, Initializes e) →
      (∀ e ∈ Stmt.valuesAll ss, Renders e) → P (statements returnTy keyword ss)
  | [], _, _ => by
      rw [Emission.statements]
      exact H.pure _
  | s :: rest, hdeclared, h => by
      simp only [Stmt.valuesAll, Stmt.declarationsAll, List.forall_mem_append] at h hdeclared
      rw [Emission.statements]
      apply H.bind (statement H returnTy keyword s hdeclared.1 h.1)
      intro _
      exact statements H returnTy keyword rest hdeclared.2 h.2
end

/-- What follows a signature has to be the same for the parameters of the function alone. -/
theorem signature_bind_congr {α : Type} {s : Symbol} {f g : List Param × Ty → Emission α}
    (h : ∀ params ret, s.kind = .fn params ret → f (params, ret) = g (params, ret)) :
    (Emission.signature s >>= f) = Emission.signature s >>= g := by
  funext ctx state
  rw [bind_apply, bind_apply, Emission.signature]
  cases hkind : s.kind with
  | var ty writable => rfl
  | fn params ret =>
      dsimp only [pure_apply]
      rw [h params ret hkind]

section
include H

theorem signature (s : Symbol) : P (signature s) := by
  unfold Emission.signature
  split
  · exact H.pure _
  · exact H.throw _

theorem structDefinition (hctx : ctx.Kindred ctx') (ty : Ty) : P (structDefinition ty) := by
  unfold Emission.structDefinition
  split
  · apply H.read (by simp only [hctx.target.declare_plain])
    apply H.bind (H.line _)
    intro _
    apply H.bind (H.bracedWith _ (H.forM fun _ _ => H.line _))
    intro _
    exact H.blank
  · exact H.pure _

theorem opening (hctx : ctx.Kindred ctx') (m : Module) : P (opening m) := by
  unfold Emission.opening
  apply H.read (by rw [hctx.namespaceText])
  apply H.bind H.blank
  intro _
  apply H.bind (H.line _)
  intro _
  apply H.bind H.blank
  intro _
  apply H.bind (H.line _)
  intro _
  apply H.bind H.blank
  intro _
  exact H.forM fun ty _ => H.structDefinition hctx ty

theorem forwardDeclarations (hctx : ctx.Kindred ctx') {functions : List Function}
    (hsame : ∀ f ∈ functions, ctx.HeadsAlike ctx' f.symbol ∧
      ∀ k k', Same k k' → k.calledInInit.contains f.symbol = k'.calledInInit.contains f.symbol) :
    P (forwardDeclarations functions) := by
  unfold Emission.forwardDeclarations
  apply H.known
  · intro k k' hk
    rw [List.filter_congr fun f hf => (hsame f hf).2 k k' hk]
  intro k
  apply H.bind
  · apply H.forM
    intro f hf
    have head := (hsame f (List.mem_filter.mp hf).1).1
    unfold forwardDeclaration
    apply H.read
    · rw [← head.same, hctx.isEntry, hctx.functionName, hctx.target.spelling]
      apply signature_bind_congr
      intro params ret hkind
      dsimp only
      rw [head.params params ret hkind]
    apply H.bind (H.signature _)
    intro signature
    exact H.line _
  · intro _
    split
    · exact H.pure _
    · exact H.blank

theorem constantList_of {cs : List Constant} (hcs : ∀ c ∈ cs, P (constant c)) :
    P (constantList cs) := by
  induction cs with
  | nil => exact H.pure _
  | cons c rest ih =>
      apply H.bind (hcs c List.mem_cons_self)
      intro lowered
      apply H.bind (ih fun d hd => hcs d (List.mem_cons_of_mem _ hd))
      intro others
      exact H.pure _

theorem constants_of {cs : List Constant} (hcs : ∀ c ∈ cs, P (constant c)) :
    P (constants cs) := by
  unfold Emission.constants
  apply H.bind (H.constantList_of hcs)
  intro lowered
  split
  · exact H.pure _
  · apply H.bind H.blank
    intro _
    exact H.pure _

theorem moduleInitializer (hctx : ctx.Kindred ctx') (statements : List String) :
    P (moduleInitializer statements) := by
  unfold Emission.moduleInitializer
  split
  · exact H.pure _
  · apply H.read (by rw [hctx.namespaceText])
    apply H.bind (H.line _)
    intro _
    apply H.bind
    · apply H.bracedWith
      apply H.bind (H.line _)
      intro _
      exact H.bracedWith "" (H.lines statements)
    · intro _
      apply H.bind (H.line _)
      intro _
      exact H.blank

theorem functionDefinition (head : String) (ret : Ty) {body : List Stmt}
    (hdeclared : ∀ d ∈ Stmt.declarationsAll body,
      ctx.DeclaresAlike ctx' d.1 ∧ ∀ e ∈ d.2, Initializes e)
    (hvalues : ∀ e ∈ Stmt.valuesAll body, Renders e) : P (functionDefinition head ret body) := by
  unfold Emission.functionDefinition
  apply H.bind (H.line _)
  intro _
  apply H.bind (H.bracedWith "" (H.statements ret "if" body hdeclared hvalues))
  intro _
  exact H.blank

theorem function (hctx : ctx.Kindred ctx')
    (hpublish : ∀ name head symbol, P (publicDeclaration name head symbol)) {f : Function}
    (hhead : ctx.HeadsAlike ctx' f.symbol)
    (hcalled : ∀ k k', Same k k' →
      k.calledInInit.contains f.symbol = k'.calledInInit.contains f.symbol)
    (hdeclared : ∀ d ∈ Stmt.declarationsAll f.body,
      ctx.DeclaresAlike ctx' d.1 ∧ ∀ e ∈ d.2, Initializes e)
    (hvalues : ∀ e ∈ Stmt.valuesAll f.body, Renders e) : P (function f) := by
  unfold Emission.function
  apply H.read
  · rw [← hhead.same, hctx.isEntry, hctx.functionName, hctx.target.spelling]
    apply signature_bind_congr
    intro params ret hkind
    dsimp only
    rw [hhead.params params ret hkind]
  apply H.bind (H.signature _)
  intro signature
  dsimp only
  split
  · apply H.bind (hpublish _ _ _)
    intro _
    apply H.known fun k k' hk => by rw [hcalled k k' hk]
    intro k
    exact H.functionDefinition _ _ hdeclared hvalues
  · apply H.known fun k k' hk => by rw [hcalled k k' hk]
    intro k
    exact H.functionDefinition _ _ hdeclared hvalues

theorem ending (hctx : ctx.Kindred ctx') {m : Module}
    (hm : ∀ f ∈ m.functions, P (Emission.function f)) :
    P (ending m) := by
  unfold Emission.ending
  apply H.bind (H.forM hm)
  intro _
  apply H.read (by rw [hctx.namespaceText])
  exact H.line _

end
end EmitterProperty

namespace StatementProperty

variable (H : StatementProperty ctx ctx' Same Renders P)
include H

theorem declarations {ss : List Stmt}
    (hlocals : ∀ symbol ∈ Stmt.localsAll ss, ctx.SameSymbol ctx' symbol)
    (hexprs : ∀ e ∈ Stmt.exprsAll ss, Renders false e) : ∀ d ∈ Stmt.declarationsAll ss,
      ctx.DeclaresAlike ctx' d.1 ∧ ∀ e ∈ d.2, Renders false e := by
  intro d hd
  obtain ⟨hlocal, hinit⟩ := Stmt.of_mem_declarationsAll ss hd
  exact ⟨H.alike.declares (hlocals _ hlocal), fun e he => hexprs e (hinit e he)⟩

theorem statements (returnTy : Ty) (keyword : String) (ss : List Stmt)
    (hlocals : ∀ symbol ∈ Stmt.localsAll ss, ctx.SameSymbol ctx' symbol)
    (hexprs : ∀ e ∈ Stmt.exprsAll ss, Renders false e) : P (statements returnTy keyword ss) :=
  H.toEmitterProperty.statements returnTy keyword ss (H.declarations hlocals hexprs)
    fun e he => hexprs e (Stmt.valuesAll_subset_exprsAll ss he)

theorem forwardDeclarations {functions : List Function}
    (hsame : ∀ f ∈ functions, SameFunction ctx ctx' Same f.symbol) :
    P (forwardDeclarations functions) :=
  H.toEmitterProperty.forwardDeclarations H.alike.kindred fun f hf =>
    ⟨H.alike.heads (hsame f hf).same, (hsame f hf).called⟩

theorem structDefinition (ty : Ty) : P (structDefinition ty) :=
  H.toEmitterProperty.structDefinition H.alike.kindred ty

theorem opening (m : Module) : P (opening m) := H.toEmitterProperty.opening H.alike.kindred m

theorem moduleInitializer (statements : List String) : P (moduleInitializer statements) :=
  H.toEmitterProperty.moduleInitializer H.alike.kindred statements

end StatementProperty

namespace FunctionProperty

variable (H : FunctionProperty ctx ctx' Same Renders P)
include H

theorem function {f : Function} (hsame : SameFunction ctx ctx' Same f.symbol)
    (hlocals : ∀ symbol ∈ Stmt.localsAll f.body, ctx.SameSymbol ctx' symbol)
    (hf : ∀ e ∈ Stmt.exprsAll f.body, Renders false e) : P (function f) :=
  H.toEmitterProperty.function H.alike.kindred H.publish (H.alike.heads hsame.same) hsame.called
    (H.declarations hlocals hf) fun e he => hf e (Stmt.valuesAll_subset_exprsAll f.body he)

theorem ending {m : Module}
    (hsame : ∀ f ∈ m.functions, SameFunction ctx ctx' Same f.symbol)
    (hlocals : ∀ f ∈ m.functions, ∀ symbol ∈ Stmt.localsAll f.body, ctx.SameSymbol ctx' symbol)
    (hm : ∀ f ∈ m.functions, ∀ e ∈ Stmt.exprsAll f.body, Renders false e) :
    P (ending m) :=
  H.toEmitterProperty.ending H.alike.kindred fun f hf =>
    H.function (hsame f hf) (hlocals f hf) (hm f hf)

end FunctionProperty

namespace ConstantProperty

variable (H : ConstantProperty ctx ctx' Same Renders Enters P)
include H

theorem declaredConstant {c : Constant} (hc : Enters c)
    (hinit : ∀ init, c.init = some init → Renders false init) (name : String) (ty : Ty)
    (strategy : Strategy) (declaration : String) :
    P (declaredConstant c name ty strategy declaration) := by
  unfold Emission.declaredConstant
  split
  · exact H.global _ _ _ hc
  · apply H.bind (H.initializer _ _ _ (hinit _ ‹_›))
    intro initializer
    cases initializer with
    | inline text => exact H.global _ _ _ hc
    | deferred statements =>
        apply H.read (by rw [H.alike.target])
        exact H.global _ _ _ hc

theorem constant {c : Constant} (hsame : SameConstant ctx ctx' Same c) (hc : Enters c)
    (hinit : ∀ init, c.init = some init →
    Renders (ctx.program.symbol c.symbol).isPlaceholder init) : P (constant c) := by
  unfold Emission.constant
  apply H.read (by simp only [hsame.same, H.alike.isForced (congrArg _ hsame.same),
    H.alike.target])
  apply H.known
  · intro k k' hk
    simp only [hsame.literal k k' hk, hsame.forced k k' hk]
  intro k
  dsimp only
  split
  · exact H.pure _
  · split
    · exact H.throw _
    · rename_i strategy hstrategy
      have chosen : strategy = .deferred ∨
          ctx.target.strategy? (ctx.program.symbol c.symbol).ty = some strategy := by
        split at hstrategy
        · exact .inl (Option.some.inj hstrategy).symm
        · exact .inr hstrategy
      split
      · rename_i hplaceholder
        rw [hplaceholder] at hinit
        apply H.bind
        · cases h : c.init with
          | none =>
              unfold placeholderConstant
              rw [h]
              exact H.pure _
          | some init => exact H.placeholder _ hc h (hinit init h) chosen
        · intro _
          exact H.pure _
      · rename_i hplaceholder
        rw [Bool.eq_false_iff.mpr hplaceholder] at hinit
        apply H.bind (H.declaredConstant hc hinit _ _ _ _)
        intro lowered
        exact H.pure _

theorem constants {cs : List Constant} (hsame : ∀ c ∈ cs, SameConstant ctx ctx' Same c)
    (hcs : ∀ c ∈ cs, Enters c ∧ ∀ init,
      c.init = some init → Renders (ctx.program.symbol c.symbol).isPlaceholder init) :
    P (constants cs) :=
  H.constants_of fun c hc => H.constant (hsame c hc) (hcs c hc).1 (hcs c hc).2

end ConstantProperty
end Emission
end ColorLowering
