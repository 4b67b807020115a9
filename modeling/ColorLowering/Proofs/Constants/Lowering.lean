import ColorLowering.Proofs.Emission.Emitters

/-!
# What lowering constants does

A literal constant and a placeholder leave nothing in the text. Any other constant is written on one
line and registered under its own symbol, with the strategy of deferral whenever its value is left
to statements.
-/
namespace ColorLowering

def Initializer.isDeferred : Initializer → Bool
  | .inline _ => false
  | .deferred _ => true

/-- Whether the value of the constant comes from the module initializer. -/
def LoweredConstant.isDeferred (c : LoweredConstant) : Bool := c.init.any Initializer.isDeferred

namespace Target

theorem strategy?_ne_deferred {t : Target} (ht : t.isModern) (ty : Ty) :
    t.strategy? ty ≠ some .deferred := by
  unfold strategy?
  split
  · simp
  · cases t.shape ty <;> simp [strategyOf, ht]

theorem eq_string_or_isNative {t : Target} {ty : Ty} (h : t.strategy? ty = some .construct) :
    ty = .string ∨ t.isNative ty := by
  unfold strategy? at h
  split at h
  · cases h
  · have hshape : t.shape ty = .constructible := by
      cases hs : t.shape ty with
      | constructible => rfl
      | direct => simp [hs, strategyOf] at h
      | aggregate =>
          cases hmodern : t.isModern <;> simp [hs, strategyOf, hmodern] at h
    cases ty with
    | string => exact .inl rfl
    | array elem size =>
        cases hform : t.arrayForm elem size false with
        | native spelling shape =>
            exact .inr (by simp [isNative, nativeSpelling?, arrayForm?, hform])
        | raw scalar size => simp [Target.shape, hform] at hshape
        | container elem => simp [Target.shape, hform] at hshape
    | void => cases hshape
    | scalar s => cases hshape
    | struct name members => cases hshape

end Target

/-- Statements are left behind by the strategy of deferral, and by a constructor of other than a
native type when it is given an aggregate. -/
theorem Rendering.isDeferred_of_initializer {strategy : Strategy} {ty : Ty} {init : Expr}
    {object : String} {scope : Scope} {texts texts' : DefaultTexts} {i : Initializer}
    (hrun : initializer strategy ty init object scope texts = (.ok i, texts')) :
    i.isDeferred = true ↔ strategy = .deferred ∨
      (strategy = .construct ∧ init.isAggregate ∧ scope.target.isNative ty = false) := by
  obtain ⟨scope', texts₁, hread, hrun⟩ := bind_eq_ok.mp hrun
  cases hread
  split at hrun
  · obtain ⟨text, texts₂, -, hdone⟩ := bind_eq_ok.mp hrun
    cases hdone
    simp [Initializer.isDeferred]
  · split at hrun
    · obtain ⟨args, texts₂, -, hdone⟩ := bind_eq_ok.mp hrun
      cases hdone
      simp_all [Initializer.isDeferred]
    · obtain ⟨statements, texts₂, -, hdone⟩ := bind_eq_ok.mp hrun
      cases hdone
      simp_all [Initializer.isDeferred, Expr.isAggregate]
  · obtain ⟨statements, texts₂, -, hdone⟩ := bind_eq_ok.mp hrun
    cases hdone
    simp [Initializer.isDeferred]
  all_goals
    obtain ⟨text, texts₂, -, hdone⟩ := bind_eq_ok.mp hrun
    cases hdone
    cases init <;> simp_all [Initializer.isDeferred, Expr.isAggregate]

def Program.declares (p : Program) (known : Classification) (c : Constant) : Bool :=
  !known.literals.contains c.symbol && !(p.symbol c.symbol).isPlaceholder

namespace Emission

theorem init_of_isForced {ctx : ModuleContext} {k : Classification} {c : Constant}
    (h : isForced ctx k c) : ∃ init, c.init = some init := by
  unfold isForced at h
  split at h
  · cases h
  · exact ⟨_, ‹_›⟩

theorem not_isForced_of_isModern {ctx : ModuleContext} (h : ctx.target.isModern)
    (k : Classification) (c : Constant) : isForced ctx k c = false := by
  unfold isForced
  split
  · rfl
  · simp [h]

/-- Whether a constant is forced depends on its own calls and on how the constants that it reads were
registered. -/
theorem isForced_congr {ctx : ModuleContext} {k k' : Classification} {c : Constant}
    (hneeds : k.needsModuleInit.get? c.symbol = k'.needsModuleInit.get? c.symbol)
    (hreads : ∀ init, c.init = some init → ∀ name ∈ init.names, ctx.isHome name →
      k.strategies.get? name = k'.strategies.get? name) :
    isForced ctx k c = isForced ctx k' c := by
  unfold isForced
  cases hinit : c.init with
  | none => rfl
  | some init =>
      have reads : ctx.readsDeferred k init = ctx.readsDeferred k' init := by
        rw [ModuleContext.readsDeferred, ModuleContext.readsDeferred, Bool.eq_iff_iff,
          List.any_eq_true, List.any_eq_true]
        refine exists_congr fun name => and_congr_right fun hname => ?_
        rw [Bool.and_eq_true, Bool.and_eq_true]
        refine and_congr_right fun hhome => ?_
        rw [Classification.isDeferred, Classification.isDeferred, hreads init hinit name hname hhome]
      simp only [reads, Table.contains, hneeds]

end Emission

namespace ModuleContext

/-- The strategy of its type, unless the constant has to wait for the module initializer. -/
def chosenStrategy? (ctx : ModuleContext) (known : Classification) (c : Constant) :
    Option Strategy :=
  if Emission.isForced ctx known c then some .deferred
  else ctx.target.strategy? (ctx.program.symbol c.symbol).ty

def placeholderText (ctx : ModuleContext) (s : EmissionState) (c : Constant) (strategy : Strategy)
    (init : Expr) : Except Failure String × DefaultTexts :=
  Rendering.placeholder (Text.unqualified (ctx.program.symbol c.symbol).name) strategy
    (ctx.program.symbol c.symbol).ty init (ctx.scope s.tables.known true) s.tables.defaultTexts

end ModuleContext

namespace Emission

/-- What lowering a constant that is not declared leaves behind: nothing of a literal or of a
placeholder without initializer, and the text of any other placeholder. -/
inductive Omits (ctx : ModuleContext) (c : Constant) (s : EmissionState) : EmissionState → Prop
  | literal : s.tables.known.literals.contains c.symbol = true → Omits ctx c s s
  | bare : s.tables.known.literals.contains c.symbol = false →
      (ctx.program.symbol c.symbol).isPlaceholder = true → c.init = none → Omits ctx c s s
  | placeholder {init : Expr} {strategy : Strategy} {text : String} {texts : DefaultTexts} :
      s.tables.known.literals.contains c.symbol = false →
      (ctx.program.symbol c.symbol).isPlaceholder = true → c.init = some init →
      ctx.chosenStrategy? s.tables.known c = some strategy →
      ctx.placeholderText s c strategy init = (.ok text, texts) →
      Omits ctx c s ((s.withTexts texts).withKnown (s.tables.known.addDefault c.symbol text))

namespace Omits

variable {ctx : ModuleContext} {c : Constant} {s s' : EmissionState} (h : Omits ctx c s s')
include h

theorem not_declares : ctx.program.declares s.tables.known c = false := by
  cases h with
  | literal hliteral => simp [Program.declares, hliteral]
  | bare _ hplaceholder _ => simp [Program.declares, hplaceholder]
  | placeholder _ hplaceholder _ _ _ => simp [Program.declares, hplaceholder]

theorem body : s'.body = s.body := by cases h <;> rfl

theorem strategies : s'.tables.known.strategies = s.tables.known.strategies := by cases h <;> rfl

end Omits

structure Declares (ctx : ModuleContext) (c : Constant) (s : EmissionState)
    (lowered : LoweredConstant) (s' : EmissionState) : Prop where
  symbol : lowered.symbol = c.symbol
  body : s'.body = s.body.line lowered.line
  known : ∃ strategy, s'.tables.known = s.tables.known.addGlobal c.symbol strategy ∧
    (lowered.isDeferred → strategy = .deferred)
  forced : isForced ctx s.tables.known c → lowered.isDeferred
  chosen : lowered.isDeferred → ctx.target.isModern →
    (ctx.program.symbol c.symbol).ty = .string ∧ c.init.any Expr.isAggregate

theorem declaredConstant_ok {c : Constant} {name declaration : String} {ty : Ty}
    {strategy : Strategy} {ctx : ModuleContext} {s s' : EmissionState} {lowered : LoweredConstant}
    (hrun : declaredConstant c name ty strategy declaration ctx s = (.ok lowered, s')) :
    lowered.symbol = c.symbol ∧ s'.body = s.body.line lowered.line ∧
      (∃ chosen, s'.tables.known = s.tables.known.addGlobal c.symbol chosen ∧
        (lowered.isDeferred → chosen = .deferred)) ∧
      (lowered.isDeferred = true ↔ ∃ init, c.init = some init ∧ (strategy = .deferred ∨
        (strategy = .construct ∧ init.isAggregate ∧ ctx.target.isNative ty = false))) := by
  unfold declaredConstant at hrun
  cases hinit : c.init with
  | none =>
      rw [hinit] at hrun
      cases hrun
      exact ⟨rfl, rfl, ⟨strategy, rfl, by simp [LoweredConstant.isDeferred]⟩,
        by simp [LoweredConstant.isDeferred]⟩
  | some init =>
      rw [hinit] at hrun
      obtain ⟨i, t, hi, hrun⟩ := bind_eq_ok.mp hrun
      rw [render, rendering_apply] at hi
      obtain ⟨hresult, rfl⟩ := Prod.mk.inj hi
      have hdeferred := Rendering.isDeferred_of_initializer (Prod.ext hresult rfl)
      cases i with
      | inline text =>
          cases hrun
          refine ⟨rfl, rfl, ⟨strategy, rfl, by simp [LoweredConstant.isDeferred,
            Initializer.isDeferred]⟩, ?_⟩
          simpa [LoweredConstant.isDeferred, ModuleContext.scope] using hdeferred
      | deferred statements =>
          cases hrun
          refine ⟨rfl, rfl, ⟨.deferred, rfl, fun _ => rfl⟩, ?_⟩
          simpa [LoweredConstant.isDeferred, ModuleContext.scope] using hdeferred

theorem placeholderConstant_ok {c : Constant} {strategy : Strategy} {ctx : ModuleContext}
    {s s' : EmissionState}
    (hliteral : s.tables.known.literals.contains c.symbol = false)
    (hplaceholder : (ctx.program.symbol c.symbol).isPlaceholder = true)
    (hchosen : ctx.chosenStrategy? s.tables.known c = some strategy)
    (hrun : placeholderConstant c (Text.unqualified (ctx.program.symbol c.symbol).name)
      (ctx.program.symbol c.symbol).ty strategy ctx s = (.ok (), s')) : Omits ctx c s s' := by
  unfold placeholderConstant at hrun
  cases hinit : c.init with
  | none =>
      rw [hinit] at hrun
      cases hrun
      exact .bare hliteral hplaceholder hinit
  | some init =>
      rw [hinit] at hrun
      obtain ⟨text, t, htext, hrun⟩ := bind_eq_ok.mp hrun
      rw [renderPortable, rendering_apply] at htext
      obtain ⟨hresult, rfl⟩ := Prod.mk.inj htext
      cases hrun
      exact .placeholder hliteral hplaceholder hinit hchosen (Prod.ext hresult rfl)

/-- A constant that is lowered either leaves nothing in the text or is declared. -/
theorem constant_ok {c : Constant} {ctx : ModuleContext} {s s' : EmissionState}
    {out : Option LoweredConstant} (hrun : constant c ctx s = (.ok out, s')) :
    (out = none ∧ Omits ctx c s s') ∨
    (∃ lowered, out = some lowered ∧ s.tables.known.literals.contains c.symbol = false ∧
      (ctx.program.symbol c.symbol).isPlaceholder = false ∧ Declares ctx c s lowered s') := by
  unfold constant at hrun
  obtain ⟨ctx', s₁, hread, hrun⟩ := bind_eq_ok.mp hrun
  cases hread
  obtain ⟨k, s₂, hknown, hrun⟩ := bind_eq_ok.mp hrun
  cases hknown
  dsimp only at hrun
  by_cases hliteral : s.tables.known.literals.contains c.symbol
  · rw [if_pos hliteral] at hrun
    cases hrun
    exact .inl ⟨rfl, .literal hliteral⟩
  · rw [if_neg hliteral] at hrun
    have hdeclared : s.tables.known.literals.contains c.symbol = false := by simpa using hliteral
    cases hchosen : (if isForced ctx s.tables.known c then some .deferred
        else ctx.target.strategy? (ctx.program.symbol c.symbol).ty) with
    | none =>
        dsimp only [Target.declare] at hrun
        rw [hchosen] at hrun
        cases hrun
    | some strategy =>
        dsimp only [Target.declare] at hrun
        rw [hchosen] at hrun
        dsimp only at hrun
        by_cases hplaceholder : (ctx.program.symbol c.symbol).isPlaceholder
        · rw [if_pos hplaceholder] at hrun
          obtain ⟨u, t, hplaced, hdone⟩ := bind_eq_ok.mp hrun
          cases hdone
          exact .inl ⟨rfl, placeholderConstant_ok hdeclared hplaceholder hchosen hplaced⟩
        · rw [if_neg hplaceholder] at hrun
          obtain ⟨lowered, t, hlowered, hdone⟩ := bind_eq_ok.mp hrun
          cases hdone
          obtain ⟨hsymbol, hbody, hknown, hdeferred⟩ := declaredConstant_ok hlowered
          refine .inr ⟨lowered, rfl, hdeclared, by simpa using hplaceholder, ?_⟩
          refine ⟨hsymbol, hbody, hknown, ?_, ?_⟩
          · intro hforced
            obtain ⟨init, hinit⟩ := init_of_isForced hforced
            rw [if_pos hforced] at hchosen
            exact hdeferred.mpr ⟨init, hinit, .inl (Option.some.inj hchosen).symm⟩
          · intro hleft hmodern
            rw [if_neg (by simp [not_isForced_of_isModern hmodern])] at hchosen
            obtain ⟨init, hinit, rfl | ⟨rfl, haggregate, hnative⟩⟩ := hdeferred.mp hleft
            · exact absurd hchosen (Target.strategy?_ne_deferred hmodern _)
            · obtain hstring | hnative' := Target.eq_string_or_isNative hchosen
              · exact ⟨hstring, by simp [hinit, haggregate]⟩
              · rw [hnative] at hnative'
                cases hnative'

/-- No constant changes which constants are literals, what they are folded to or which functions are
called by initializers. -/
theorem literals_frame : ConstantFrame
    (fun s t => t.tables.known.literals = s.tables.known.literals ∧
      t.tables.known.folded = s.tables.known.folded ∧
      t.tables.known.calledInInit = s.tables.known.calledInInit) (fun _ _ => True) where
  refl _ := ⟨rfl, rfl, rfl⟩
  trans hst htu := ⟨htu.1.trans hst.1, htu.2.1.trans hst.2.1, htu.2.2.trans hst.2.2⟩
  stop _ := trivial
  fail _ _ := trivial
  texts _ _ := ⟨rfl, rfl, rfl⟩
  line _ _ := ⟨rfl, rfl, rfl⟩
  blank _ := ⟨rfl, rfl, rfl⟩
  braced _ h := h
  bracedFailed _ := trivial
  indented h := h
  indentedFailed _ := trivial
  global _ _ _ := ⟨rfl, rfl, rfl⟩
  default _ _ _ := ⟨rfl, rfl, rfl⟩

section
variable {ctx : ModuleContext} {s u : EmissionState}

theorem constantList_cons_ok {c : Constant} {rest : List Constant} {out : List LoweredConstant}
    (hrun : constantList (c :: rest) ctx s = (.ok out, u)) :
    ∃ first t others, constant c ctx s = (.ok first, t) ∧
      constantList rest ctx t = (.ok others, u) ∧ out = first.toList ++ others := by
  obtain ⟨first, t, hfirst, hrun⟩ := bind_eq_ok.mp hrun
  obtain ⟨others, t', hothers, hdone⟩ := bind_eq_ok.mp hrun
  cases hdone
  exact ⟨first, t, others, hfirst, hothers, rfl⟩

theorem constantList_append_ok {xs ys : List Constant} {out : List LoweredConstant}
    (hrun : constantList (xs ++ ys) ctx s = (.ok out, u)) :
    ∃ early t late, constantList xs ctx s = (.ok early, t) ∧
      constantList ys ctx t = (.ok late, u) ∧ out = early ++ late := by
  induction xs generalizing s out with
  | nil => exact ⟨[], s, out, rfl, hrun, rfl⟩
  | cons c rest ih =>
      obtain ⟨first, t, others, hfirst, hothers, rfl⟩ := constantList_cons_ok hrun
      obtain ⟨early, t', late, hearly, hlate, rfl⟩ := ih hothers
      refine ⟨first.toList ++ early, t', late, ?_, hlate, (List.append_assoc ..).symm⟩
      exact bind_eq_ok.mpr ⟨first, t, hfirst, bind_eq_ok.mpr ⟨early, t', hearly, rfl⟩⟩

theorem symbols_of_constantList {cs : List Constant} {out : List LoweredConstant}
    (hrun : constantList cs ctx s = (.ok out, u)) :
    out.map LoweredConstant.symbol =
      (cs.filter (ctx.program.declares s.tables.known)).map Constant.symbol := by
  induction cs generalizing s out with
  | nil =>
      cases hrun
      rfl
  | cons c rest ih =>
      obtain ⟨first, t, others, hfirst, hothers, rfl⟩ := constantList_cons_ok hrun
      have kept := ((literals_frame.within_constant c).done hfirst).1
      have same : ctx.program.declares t.tables.known = ctx.program.declares s.tables.known := by
        funext c
        rw [Program.declares, Program.declares, kept]
      have others := ih hothers
      rw [same] at others
      obtain ⟨rfl, homits⟩ | ⟨lowered, rfl, hliteral, hplaceholder, hdeclares⟩ :=
        constant_ok hfirst
      · simpa [homits.not_declares] using others
      · have hc : ctx.program.declares s.tables.known c = true := by
          simp [Program.declares, hliteral, hplaceholder]
        simp [hc, others, hdeclares.symbol]

theorem body_of_constantList {cs : List Constant} {out : List LoweredConstant}
    (hrun : constantList cs ctx s = (.ok out, u)) :
    u.body = (out.map LoweredConstant.line).foldl Text.Writer.line s.body := by
  induction cs generalizing s out with
  | nil =>
      cases hrun
      rfl
  | cons c rest ih =>
      obtain ⟨first, t, others, hfirst, hothers, rfl⟩ := constantList_cons_ok hrun
      rw [ih hothers]
      obtain ⟨rfl, homits⟩ | ⟨lowered, rfl, -, -, hdeclares⟩ := constant_ok hfirst
      · rw [homits.body]
        rfl
      · rw [hdeclares.body]
        rfl

theorem constant_declares {c : Constant} {out : Option LoweredConstant}
    (hrun : constant c ctx s = (.ok out, u))
    (hc : ctx.program.declares s.tables.known c = true) :
    ∃ lowered, out = some lowered ∧ Declares ctx c s lowered u := by
  obtain ⟨-, homits⟩ | ⟨lowered, rfl, -, -, hdeclares⟩ := constant_ok hrun
  · rw [homits.not_declares] at hc
    cases hc
  · exact ⟨lowered, rfl, hdeclares⟩

end
end Emission
end ColorLowering
