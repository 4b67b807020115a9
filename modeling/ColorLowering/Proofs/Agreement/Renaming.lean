import ColorLowering.Proofs.Agreement.Module
import ColorLowering.Proofs.Constants.Places

/-!
# Renamed constants

A constant that became a literal is looked up by its text, and a placeholder that is only ever the
default of an omitted argument is looked up by the text kept for it. From then on a module is
lowered alike whatever the name of the constant is.
-/
namespace ColorLowering

/-- The program with another name for one symbol. -/
def Program.rename (p : Program) (x : SymbolId) (name : String) : Program :=
  { p with symbols := p.symbols.modify x.index fun symbol => { symbol with name } }

namespace Program

variable {p : Program} {x symbol : SymbolId} {name : String}

theorem symbol_rename_of_ne (h : symbol ≠ x) :
    (p.rename x name).symbol symbol = p.symbol symbol := by
  have apart : x.index ≠ symbol.index := fun heq => h (by cases symbol; cases x; simp_all)
  simp [Program.symbol, rename, Array.getD_eq_getD_getElem?, Array.getElem?_modify, apart]

theorem symbol_rename_self (h : (p.symbol x).module ≠ none) :
    (p.rename x name).symbol x = ⟨name, (p.symbol x).module, (p.symbol x).kind⟩ := by
  have bound : x.index < p.symbols.size := by
    by_contra hbound
    have outside : p.symbols[x.index]? = none := Array.getElem?_eq_none (Nat.not_lt.mp hbound)
    apply h
    simp [Program.symbol, Array.getD_eq_getD_getElem?, outside, anonymous]
  simp [Program.symbol, rename, Array.getD_eq_getD_getElem?, Array.getElem_modify, bound]

end Program

def ModuleContext.rename (ctx : ModuleContext) (x : SymbolId) (name : String) : ModuleContext :=
  { ctx with program := ctx.program.rename x name }

namespace ModuleContext

variable {ctx : ModuleContext} {x : SymbolId} {name : String}

theorem sameSymbol_rename {symbol : SymbolId} (h : symbol ≠ x) :
    ctx.SameSymbol (ctx.rename x name) symbol :=
  (Program.symbol_rename_of_ne h).symm

theorem alike_rename (hx : (ctx.program.symbol x).module ≠ none) :
    ctx.Alike (ctx.rename x name) where
  target := rfl
  module := rfl
  modules := rfl
  owner symbol := by
    by_cases h : symbol = x
    · subst h
      rw [ModuleContext.rename, Program.symbol_rename_self hx]
    · rw [sameSymbol_rename h]
  kind symbol := by
    by_cases h : symbol = x
    · subst h
      rw [ModuleContext.rename, Program.symbol_rename_self hx]
    · rw [sameSymbol_rename h]

/-- A reference to a literal or to another symbol does not use the name. -/
theorem resolve_rename (hx : (ctx.program.symbol x).module ≠ none) {k : Classification}
    {symbol : SymbolId} (h : symbol ≠ x ∨ k.literals.contains symbol) (portable : Bool) :
    (ctx.scope k portable).resolve symbol =
      ((ctx.rename x name).scope k portable).resolve symbol := by
  have alike : ctx.Alike (ctx.rename x name) := alike_rename hx
  unfold Scope.resolve
  simp only [scope]
  cases hliteral : k.literals.get? symbol with
  | some text => rfl
  | none =>
      have apart : symbol ≠ x := by
        refine h.resolve_right fun hcontains => ?_
        rw [Table.contains, hliteral] at hcontains
        cases hcontains
      have same : (ctx.rename x name).program.symbol symbol = ctx.program.symbol symbol :=
        (sameSymbol_rename apart).symm
      have named : (ctx.rename x name).program.functionName = ctx.program.functionName :=
        alike.kindred.functionName.symm
      have spaces (m : ModuleId) :
          (ctx.rename x name).program.namespaceOf m = ctx.program.namespaceOf m := by
        rw [Program.namespaceOf, Program.namespaceOf, alike.moduleOf]
      simp only [Scope.functionReference, Scope.variableReference, Scope.qualified, same, named,
        spaces]
      rfl

end ModuleContext

namespace Emission

variable {ctx : ModuleContext} {x : SymbolId} {name : String}

/-- Rendering the expression looks up `x` only as what it is known as, under no name. -/
def Hides (x : SymbolId) (k : Classification) (e : Expr) : Prop :=
  k.literals.contains x ∨ x ∉ e.named ∧ (k.defaults.contains x ∨ x ∉ e.referred)

def Shared (Holds : Classification → Prop) (k k' : Classification) : Prop := k = k' ∧ Holds k

theorem sameLookups_rename (hx : (ctx.program.symbol x).module ≠ none)
    {Holds : Classification → Prop} {portable : Bool} {e : Expr}
    (he : ∀ k, Holds k → Hides x k e) :
    SameLookups False (Shared Holds) Eq ctx (ctx.rename x name) portable e where
  named := by
    rintro k _ ⟨rfl, hk⟩ symbol hsymbol
    apply ModuleContext.resolve_rename hx
    by_cases h : symbol = x
    · subst h
      exact .inr ((he k hk).resolve_right fun hides => hides.1 hsymbol)
    · exact .inl h
  filled := by
    rintro k _ ⟨rfl, hk⟩ slot hslot
    cases slot with
    | required => trivial
    | optional param ty id default =>
        apply Slot.agrees_of_same
          (scope_alike (ModuleContext.alike_rename hx) False.elim k k portable)
        · intro symbol hplain
          refine ⟨rfl, fun hunknown => ModuleContext.resolve_rename hx ?_ portable⟩
          by_cases h : symbol = x
          · subst h
            refine .inr ((he k hk).resolve_right ?_)
            rintro ⟨-, hdefault | hreferred⟩
            · rw [Table.contains] at hdefault
              change k.defaults.get? symbol = none at hunknown
              rw [hunknown] at hdefault
              cases hdefault
            · exact hreferred (Expr.referred_of_filled e hslot
                (Expr.mem_referred_of_plainName? hplain))
          · exact .inl h
        · rintro texts _ rfl
          rfl
        · rintro texts _ text rfl
          rfl

theorem sameSurvey_rename (hx : (ctx.program.symbol x).module ≠ none)
    {Holds : Classification → Prop} (symbol : SymbolId) (init : Expr) :
    SameSurvey False (Shared Holds) Eq ctx (ctx.rename x name) symbol init where
  literal := by
    rintro k _ ⟨rfl, -⟩
    rfl
  folded := by
    rintro k _ ⟨rfl, -⟩
    have ty : (ctx.program.symbol symbol).ty = ((ctx.rename x name).program.symbol symbol).ty := by
      rw [Symbol.ty, Symbol.ty, (ModuleContext.alike_rename hx).kind]
    rw [ModuleContext.folded?, ModuleContext.folded?, ty]
    rfl
  lookups := by
    have literal := @sameLookups_rename ctx x name hx
      (fun k => init.isLiteral k.literals = true) false init
      (by
        intro k hk
        by_cases h : x ∈ init.referred
        · exact .inl (Expr.literal_of_isLiteral init hk x h)
        · exact .inr ⟨fun hnamed => h (init.named_subset_referred hnamed), .inr h⟩)
    exact literal.mono fun h => ⟨h.1.1, h.2⟩

/-- The constant is eliminated: it is a literal, or a placeholder whose text is known. -/
def Known (x : SymbolId) (k : Classification) : Prop :=
  k.literals.contains x ∨ k.defaults.contains x

theorem steady_shared {Holds : Classification → Prop}
    (literal : ∀ {k} symbol text value, Holds k → Holds (k.addLiteral symbol text value))
    (callees : ∀ {k} symbols, Holds k → Holds (k.addCallees symbols))
    (needsModuleInit : ∀ {k} symbol, Holds k → Holds (k.addNeedsModuleInit symbol))
    (global : ∀ {k} symbol strategy, Holds k → Holds (k.addGlobal symbol strategy))
    (default : ∀ {k} symbol text, Holds k → Holds (k.addDefault symbol text)) :
    ctx.Steady (Shared Holds) where
  literal text value _ h := ⟨by rw [h.1], literal _ text value h.2⟩
  callees _ h := ⟨by rw [h.1], callees _ h.2⟩
  needsModuleInit _ h := ⟨by rw [h.1], needsModuleInit _ h.2⟩
  global strategy _ h := ⟨by rw [h.1], global _ strategy h.2⟩
  default text _ h := ⟨by rw [h.1], default _ text h.2⟩

theorem steady_any : ctx.Steady (Shared fun _ => True) :=
  steady_shared (fun _ _ _ _ => trivial) (fun _ _ => trivial) (fun _ _ => trivial)
    (fun _ _ _ => trivial) fun _ _ _ => trivial

theorem steady_literal : ctx.Steady (Shared fun k => k.literals.contains x) :=
  steady_shared (fun _ _ _ h => by simp [Classification.addLiteral, h]) (fun _ h => h)
    (fun _ h => h) (fun _ _ h => h) fun _ _ h => h

theorem steady_known : ctx.Steady (Shared (Known x)) :=
  steady_shared (fun _ _ _ h => h.imp_left fun h => by simp [Classification.addLiteral, h])
    (fun _ h => h) (fun _ h => h) (fun _ _ h => h)
    fun _ _ h => h.imp_right fun h => by simp [Classification.addDefault, h]

/-- States that share what is known, the texts and where they began are one state. -/
theorem eq_of_shared {base s s' : EmissionState} {Holds : Classification → Prop}
    (h : base.Abreast base (Shared Holds) Eq s s') : s = s' ∧ Holds s.tables.known := by
  obtain ⟨⟨hknown, hholds⟩, htexts, hheader, hbody, added, hentries, hentries'⟩ := h
  refine ⟨?_, hholds⟩
  obtain ⟨⟨known, texts, entries⟩, header, body⟩ := s
  obtain ⟨⟨known', texts', entries'⟩, header', body'⟩ := s'
  obtain rfl : header = header' := hheader.eq
  obtain rfl : body = body' := hbody.eq
  dsimp only at hknown htexts hentries hentries'
  rw [hknown, htexts, hentries, hentries']

theorem shared_self {s : EmissionState} {Holds : Classification → Prop}
    (h : Holds s.tables.known) : s.Abreast s (Shared Holds) Eq s s :=
  ⟨⟨rfl, h⟩, rfl, .start rfl, .start rfl, [], by simp, by simp⟩

theorem Agrees.same {α : Type} {ctx' : ModuleContext} {Holds Holds' : Classification → Prop}
    {e : Emission α} {s t : EmissionState} {a : α}
    (h : Agrees False (s.Abreast s (Shared Holds) Eq) (s.Abreast s (Shared Holds') Eq) ctx ctx' e)
    (hs : Holds s.tables.known) (hrun : e ctx s = (.ok a, t)) :
    e ctx' s = (.ok a, t) ∧ Holds' t.tables.known := by
  obtain ⟨t', hrun', ht⟩ := h.done (shared_self hs) hrun
  obtain ⟨rfl, hholds⟩ := eq_of_shared ht
  exact ⟨hrun', hholds⟩

theorem literals_of_surveyCallees {symbol : SymbolId} {init : Expr} {s t : EmissionState}
    (hrun : surveyCallees symbol init ctx s = (.ok (), t)) :
    t.tables.known.literals = s.tables.known.literals := by
  simp only [surveyCallees, bind_apply, read_apply, known_apply] at hrun
  split at hrun <;> (cases hrun; rfl)

theorem constant_of_literal {c : Constant} {s : EmissionState}
    (h : s.tables.known.literals.contains c.symbol = true) : constant c ctx s = (.ok none, s) := by
  unfold constant
  simp only [bind_apply, read_apply, known_apply, h, if_true, pure_apply]

/-- A placeholder that is no literal is rendered with the strategy for its type. -/
theorem constant_of_placeholder {c : Constant} {s : EmissionState}
    (hliteral : s.tables.known.literals.contains c.symbol = false)
    (hplaceholder : (ctx.program.symbol c.symbol).isPlaceholder = true) :
    constant c ctx s =
      (match if isForced ctx s.tables.known c then some Strategy.deferred
          else ctx.target.strategy? (ctx.program.symbol c.symbol).ty with
        | none => throw (Failure.unresolvedStrategy
            (Text.unqualified (ctx.program.symbol c.symbol).name))
        | some strategy => do
          placeholderConstant c (Text.unqualified (ctx.program.symbol c.symbol).name)
            (ctx.program.symbol c.symbol).ty strategy
          return none : Emission (Option LoweredConstant)) ctx s := by
  unfold constant
  simp only [bind_apply, read_apply, known_apply, hliteral, hplaceholder, if_true, Target.declare]
  rfl

theorem placeholder_name (name name' : String) (strategy : Strategy) (ty : Ty) (init : Expr) :
    Rendering.placeholder name strategy ty init = Rendering.placeholder name' strategy ty init ∨
      Rendering.placeholder name strategy ty init = throw (.unsupportedPlaceholder name) := by
  unfold Rendering.placeholder
  split
  · exact .inl rfl
  · exact .inr rfl
  · exact .inl rfl
  · exact .inl rfl
  · exact .inl rfl

theorem placeholderConstant_name {c : Constant} {name : String} (name' : String) {ty : Ty}
    {strategy : Strategy} {s t : EmissionState}
    (hrun : placeholderConstant c name ty strategy ctx s = (.ok (), t)) :
    placeholderConstant c name' ty strategy ctx s = (.ok (), t) := by
  unfold placeholderConstant at hrun ⊢
  cases hinit : c.init with
  | none =>
      rw [hinit] at hrun
      exact hrun
  | some init =>
      rw [hinit] at hrun
      dsimp only at hrun ⊢
      rcases placeholder_name name name' strategy ty init with hsame | hthrow
      · rwa [← hsame]
      · rw [hthrow] at hrun
        cases hrun

theorem sameFunction_rename {Holds : Classification → Prop} {symbol : SymbolId} (h : symbol ≠ x) :
    SameFunction ctx (ctx.rename x name) (Shared Holds) symbol :=
  ⟨ModuleContext.sameSymbol_rename h, fun _ _ h => by rw [h.1]⟩

section
variable (hx : (ctx.program.symbol x).module ≠ none)
include hx

/-- A module that enters other constants and hides this one is lowered alike under either name. -/
theorem agrees_module_rename {Holds : Classification → Prop} (hsteady : ctx.Steady (Shared Holds))
    (hhides : ∀ portable e, ctx.program.RendersAt ctx.module portable e →
      ∀ k, Holds k → Hides x k e)
    (hconstants : ∀ c ∈ (ctx.program.module ctx.module).constants, c.symbol ≠ x)
    (hfunctions : ∀ f ∈ (ctx.program.module ctx.module).functions,
      f.symbol ≠ x ∧ x ∉ Stmt.localsAll f.body) (base : EmissionState) :
    Agrees False (base.Abreast base (Shared Holds) Eq) (base.Abreast base (Shared Holds) Eq)
      ctx (ctx.rename x name) (module (ctx.program.module ctx.module)) := by
  apply agrees_module_of_steady (ModuleContext.alike_rename hx) False.elim hsteady
  · exact fun he => sameLookups_rename hx (hhides _ _ he)
  · exact fun c _ init _ => sameSurvey_rename hx c.symbol init
  · exact fun c hc => ⟨ModuleContext.sameSymbol_rename (hconstants c hc),
      fun _ _ h => by rw [h.1], fun _ _ h => by rw [h.1]⟩
  · exact fun f hf => sameFunction_rename (hfunctions f hf).1
  · rintro f hf symbol hsymbol
    apply ModuleContext.sameSymbol_rename
    rintro rfl
    exact (hfunctions f hf).2 hsymbol

theorem surveyConstants_rename_of_ne {cs : List Constant} {s t : EmissionState}
    (hlisted : ∀ c ∈ cs, ctx.Lists c.symbol) (hcs : ∀ c ∈ cs, c.symbol ≠ x)
    (hrun : surveyConstants cs ctx s = (.ok (), t)) :
    surveyConstants cs (ctx.rename x name) s = (.ok (), t) := by
  have agrees : Agrees False (s.Abreast s (Shared fun _ => True) Eq)
      (s.Abreast s (Shared fun _ => True) Eq) ctx (ctx.rename x name) (surveyConstants cs) :=
    agrees_surveyConstants (ModuleContext.alike_rename hx) False.elim steady_any hlisted
      fun c hc => ⟨by rw [ModuleContext.sameSymbol_rename (hcs c hc)],
        fun init _ => sameSurvey_rename hx c.symbol init⟩
  exact (agrees.same trivial hrun).1

/-- The survey that makes the constant a literal is the same under either name. -/
theorem surveyConstant_rename {c : Constant} {s t : EmissionState} (hlisted : ctx.Lists c.symbol)
    (hs : s.tables.known.literals.contains c.symbol = false)
    (ht : t.tables.known.literals.contains c.symbol = true)
    (hrun : surveyConstant c ctx s = (.ok (), t)) :
    surveyConstant c (ctx.rename x name) s = (.ok (), t) := by
  unfold surveyConstant at hrun ⊢
  cases hinit : c.init with
  | none =>
      rw [hinit] at hrun
      cases hrun
      rw [hs] at ht
      cases ht
  | some init =>
      rw [hinit] at hrun
      simp only [bind_apply, known_apply] at hrun ⊢
      by_cases h : (!init.isAggregate && init.isLiteral s.tables.known.literals) = true
      · simp only [if_pos h] at hrun ⊢
        rw [Bool.and_eq_true] at h
        have agrees : Agrees False
            (s.Abreast s (Shared fun k => True ∧ init.isLiteral k.literals = true) Eq)
            (s.Abreast s (Shared fun _ => True) Eq) ctx (ctx.rename x name)
            (surveyLiteral c.symbol init) := by
          intro u u' hu
          exact agrees_surveyLiteral (ModuleContext.alike_rename hx) False.elim steady_any hlisted
            (sameSurvey_rename hx c.symbol init) u u'
            { hu with known := ⟨⟨hu.known.1, trivial⟩, hu.known.2.2⟩ }
        exact (agrees.same ⟨trivial, h.2⟩ hrun).1
      · simp only [if_neg h] at hrun
        rw [literals_of_surveyCallees hrun, hs] at ht
        cases ht

theorem surveyConstants_rename {before after : List Constant} {c : Constant} {s t : EmissionState}
    (hlisted : ∀ d ∈ before ++ c :: after, ctx.Lists d.symbol) (hc : c.symbol = x)
    (hbefore : ∀ d ∈ before, d.symbol ≠ x) (hafter : ∀ d ∈ after, d.symbol ≠ x)
    (hs : s.tables.known.literals.contains x = false)
    (ht : t.tables.known.literals.contains x = true)
    (hrun : surveyConstants (before ++ c :: after) ctx s = (.ok (), t)) :
    surveyConstants (before ++ c :: after) (ctx.rename x name) s = (.ok (), t) := by
  rw [surveyConstants_append, surveyConstants] at hrun ⊢
  obtain ⟨_, u, hfirst, hrun⟩ := bind_eq_ok.mp hrun
  obtain ⟨_, v, hsurvey, hlast⟩ := bind_eq_ok.mp hrun
  -- Only the survey of the constant itself can have made it a literal.
  have fresh : u.tables.known.literals.contains c.symbol = false := by
    rw [hc, Bool.eq_false_iff]
    intro hu
    obtain h | ⟨d, hd, hsymbol, -⟩ := (literals_of_surveyConstants hfirst x).2 hu
    · rw [hs] at h
      cases h
    · exact hbefore d hd hsymbol
  have entered : v.tables.known.literals.contains c.symbol = true := by
    rw [hc]
    obtain h | ⟨d, hd, hsymbol, -⟩ := (literals_of_surveyConstants hlast x).2 ht
    · exact h
    · exact absurd hsymbol (hafter d hd)
  have last := fun d hd => hlisted d (List.mem_append_right before (List.mem_cons_of_mem c hd))
  exact bind_eq_ok.mpr ⟨(), u,
    surveyConstants_rename_of_ne hx (fun d hd => hlisted d (List.mem_append_left _ hd)) hbefore
      hfirst,
    bind_eq_ok.mpr ⟨(), v, surveyConstant_rename hx (hlisted c (by simp)) fresh entered hsurvey,
      surveyConstants_rename_of_ne hx last hafter hlast⟩⟩

/-- Another constant that hides this one is lowered alike. -/
theorem agrees_constant_rename {Holds : Classification → Prop} (hsteady : ctx.Steady (Shared Holds))
    {c : Constant} (hlisted : ctx.Lists c.symbol) (hc : c.symbol ≠ x)
    (hhides : ∀ init, c.init = some init → ∀ k, Holds k → Hides x k init) (base : EmissionState) :
    Agrees False (base.Abreast base (Shared Holds) Eq) (base.Abreast base (Shared Holds) Eq)
      ctx (ctx.rename x name) (constant c) := by
  have property : ConstantProperty ctx (ctx.rename x name) (Shared Holds)
      (fun _ e => ∀ k, Holds k → Hides x k e) (fun c => ctx.Lists c.symbol)
      (Agrees False (base.Abreast base (Shared Holds) Eq) (base.Abreast base (Shared Holds) Eq)
        ctx (ctx.rename x name)) :=
    agrees_constants (ModuleContext.alike_rename hx) False.elim hsteady fun he =>
      sameLookups_rename hx he
  exact property.constant ⟨ModuleContext.sameSymbol_rename hc, fun _ _ h => by rw [h.1],
    fun _ _ h => by rw [h.1]⟩ hlisted hhides

theorem agrees_constant_literal {c : Constant} (hlisted : ctx.Lists c.symbol)
    (base : EmissionState) :
    Agrees False (base.Abreast base (Shared fun k => k.literals.contains x) Eq)
      (base.Abreast base (Shared fun k => k.literals.contains x) Eq) ctx (ctx.rename x name)
      (constant c) := by
  by_cases hc : c.symbol = x
  · subst hc
    intro s s' hs
    obtain ⟨rfl, hliteral⟩ := eq_of_shared hs
    rw [constant_of_literal hliteral]
    exact ⟨s, constant_of_literal hliteral, hs⟩
  · exact agrees_constant_rename hx steady_literal hlisted hc (fun _ _ _ h => .inl h) base

theorem constant_rename_placeholder {c : Constant} (hlisted : ctx.Lists c.symbol)
    (hplaceholder : (ctx.program.symbol c.symbol).isPlaceholder = true)
    (hplaceholder' : ((ctx.rename x name).program.symbol c.symbol).isPlaceholder = true)
    {init : Expr} (hinit : c.init = some init) (hreferred : x ∉ init.referred) {s t : EmissionState}
    (hliteral : s.tables.known.literals.contains c.symbol = false)
    {out : Option LoweredConstant} (hrun : constant c ctx s = (.ok out, t)) :
    constant c (ctx.rename x name) s = (.ok out, t) := by
  have alike : ctx.Alike (ctx.rename x name) := ModuleContext.alike_rename hx
  have ty : ((ctx.rename x name).program.symbol c.symbol).ty =
      (ctx.program.symbol c.symbol).ty := by
    rw [Symbol.ty, Symbol.ty, alike.kind]
  have forced := alike.isForced (hplaceholder.trans hplaceholder'.symm)
  rw [constant_of_placeholder hliteral hplaceholder] at hrun
  rw [constant_of_placeholder hliteral hplaceholder', ty, ← forced, ← alike.target]
  cases hchosen : (if isForced ctx s.tables.known c then some Strategy.deferred
      else ctx.target.strategy? (ctx.program.symbol c.symbol).ty) with
  | none =>
      rw [hchosen] at hrun
      cases hrun
  | some strategy =>
      rw [hchosen] at hrun
      obtain ⟨_, u, hplaced, hdone⟩ := bind_eq_ok.mp hrun
      have lookups : SameLookups False (Shared fun _ => True) Eq ctx (ctx.rename x name) true
          init :=
        sameLookups_rename hx fun _ _ =>
          .inr ⟨fun h => hreferred (init.named_subset_referred h), .inr hreferred⟩
      have agrees : Agrees False (s.Abreast s (Shared fun _ => True) Eq)
          (s.Abreast s (Shared fun _ => True) Eq) ctx (ctx.rename x name)
          (placeholderConstant c (Text.unqualified (ctx.program.symbol c.symbol).name)
            (ctx.program.symbol c.symbol).ty strategy) :=
        agrees_placeholderConstant alike False.elim steady_any hlisted hinit lookups _ _ strategy
      exact bind_eq_ok.mpr
        ⟨(), u, placeholderConstant_name _ (agrees.same trivial hplaced).1, hdone⟩

/-- Once the placeholder is lowered its text is known. -/
theorem agrees_constant_placeholder {c : Constant} (hlisted : ctx.Lists c.symbol)
    (hplaceholder : (ctx.program.symbol c.symbol).isPlaceholder = true)
    (hplaceholder' : ((ctx.rename x name).program.symbol c.symbol).isPlaceholder = true)
    {init : Expr} (hinit : c.init = some init) (hreferred : x ∉ init.referred)
    (base : EmissionState) :
    Agrees False (base.Abreast base (Shared fun _ => True) Eq)
      (base.Abreast base (Shared (Known c.symbol)) Eq) ctx (ctx.rename x name) (constant c) := by
  intro s s' hs
  obtain ⟨rfl, -⟩ := eq_of_shared hs
  cases hliteral : s.tables.known.literals.contains c.symbol with
  | true =>
      rw [constant_of_literal hliteral]
      exact ⟨s, constant_of_literal hliteral, { hs with known := ⟨rfl, .inl hliteral⟩ }⟩
  | false =>
      cases hrun : constant c ctx s with
      | mk result t =>
          cases result with
          | error e => exact False.elim
          | ok out =>
              refine ⟨t, constant_rename_placeholder hx hlisted hplaceholder hplaceholder' hinit
                hreferred hliteral hrun, ?_⟩
              obtain ⟨-, homits⟩ | ⟨_, -, -, hother, -⟩ := constant_ok hrun
              · cases homits with
                | literal h => rw [hliteral] at h; cases h
                | bare _ _ hnone => rw [hinit] at hnone; cases hnone
                | placeholder _ _ _ =>
                    exact { hs with known := ⟨rfl, .inr (by simp [EmissionState.withKnown,
                      Classification.addDefault])⟩, texts := rfl }
              · rw [hplaceholder] at hother
                cases hother

end

theorem constantList_append (cs ds : List Constant) : constantList (cs ++ ds) = (do
    let early ← constantList cs
    let late ← constantList ds
    return early ++ late) := by
  induction cs with
  | nil => simp [constantList]
  | cons c rest ih =>
      simp only [List.cons_append, constantList, ih, bind_assoc, pure_bind, List.append_assoc]

section
variable (hx : (ctx.program.symbol x).module ≠ none)
include hx

/-- The constants before a placeholder do without it, and those after it find its text. -/
theorem agrees_constants_placeholder {before after : List Constant} {c : Constant}
    (hlisted : ∀ d ∈ before ++ c :: after, ctx.Lists d.symbol) (hc : c.symbol = x)
    (hbefore : ∀ d ∈ before, d.symbol ≠ x ∧ ∀ init, d.init = some init → x ∉ init.referred)
    (hafter : ∀ d ∈ after, d.symbol ≠ x ∧ ∀ init, d.init = some init → x ∉ init.named)
    (hplaceholder : (ctx.program.symbol x).isPlaceholder = true)
    (hplaceholder' : ((ctx.rename x name).program.symbol x).isPlaceholder = true)
    {init : Expr} (hinit : c.init = some init) (hreferred : x ∉ init.referred)
    (base : EmissionState) :
    Agrees False (base.Abreast base (Shared fun _ => True) Eq)
      (base.Abreast base (Shared (Known x)) Eq) ctx (ctx.rename x name)
      (constants (before ++ c :: after)) := by
  have statements (Holds : Classification → Prop) : StatementProperty ctx (ctx.rename x name)
      (Shared Holds) (fun _ _ => False) (Agrees False (base.Abreast base (Shared Holds) Eq)
        (base.Abreast base (Shared Holds) Eq) ctx (ctx.rename x name)) :=
    agrees_statements (ModuleContext.alike_rename hx) False.elim False.elim
  have early := (statements fun _ => True).constantList_of fun d hd =>
    agrees_constant_rename hx steady_any (hlisted d (List.mem_append_left _ hd)) (hbefore d hd).1
      (fun init hinit _ _ => .inr ⟨fun h => (hbefore d hd).2 init hinit
        (init.named_subset_referred h), .inr ((hbefore d hd).2 init hinit)⟩) base
  have own : Agrees False (base.Abreast base (Shared fun _ => True) Eq)
      (base.Abreast base (Shared (Known c.symbol)) Eq) ctx (ctx.rename x name) (constant c) :=
    agrees_constant_placeholder hx (hlisted c (by simp)) (by rwa [hc]) (by rwa [hc]) hinit hreferred
      base
  rw [hc] at own
  have late := (statements (Known x)).constantList_of fun d hd =>
    agrees_constant_rename hx steady_known
      (hlisted d (List.mem_append_right _ (List.mem_cons_of_mem c hd))) (hafter d hd).1
      (fun init hinit _ hk => hk.imp_right fun h => ⟨(hafter d hd).2 init hinit, .inl h⟩) base
  unfold constants
  rw [constantList_append]
  apply Agrees.bind
  · exact early.bind fun _ => (own.bind fun _ => late.bind fun _ => .pure _).bind fun _ => .pure _
  intro lowered
  split
  · exact .pure _
  · exact (statements (Known x)).blank.bind fun _ => .pure _

/-- A module in which the constant becomes a literal is lowered alike under either name. -/
theorem module_rename_literal {before after : List Constant} {c : Constant} {s t : EmissionState}
    (hcs : (ctx.program.module ctx.module).constants = before ++ c :: after) (hc : c.symbol = x)
    (hbefore : ∀ d ∈ before, d.symbol ≠ x) (hafter : ∀ d ∈ after, d.symbol ≠ x)
    (hfunctions : ∀ f ∈ (ctx.program.module ctx.module).functions,
      f.symbol ≠ x ∧ x ∉ Stmt.localsAll f.body)
    (hs : s.tables.known.literals.contains x = false)
    (ht : t.tables.known.literals.contains x = true)
    (hrun : module (ctx.program.module ctx.module) ctx s = (.ok (), t)) :
    module (ctx.program.module ctx.module) (ctx.rename x name) s = (.ok (), t) := by
  have listed : ∀ d ∈ (ctx.program.module ctx.module).constants, ctx.Lists d.symbol :=
    fun d hd => ⟨d, hd, rfl⟩
  obtain ⟨start, u, lowered, hheading, hlist, -, hknown⟩ := module_runs hrun
  obtain ⟨surveyed, hsurvey, hstart⟩ := heading_surveys hheading
  have literal : surveyed.tables.known.literals.contains x = true := by
    rw [← hstart, ← ((literals_frame.within_constantList _).done hlist).1, ← hknown]
    exact ht
  have renamed : surveyConstants (ctx.program.module ctx.module).constants (ctx.rename x name) s =
      (.ok (), surveyed) := by
    rw [hcs] at listed hsurvey ⊢
    exact surveyConstants_rename hx listed hc hbefore hafter hs literal hsurvey
  let Literal := surveyed.Abreast surveyed (Shared fun k => k.literals.contains x) Eq
  have functions : FunctionProperty ctx (ctx.rename x name)
      (Shared fun k => k.literals.contains x) (fun _ _ => True)
      (Agrees False Literal Literal ctx (ctx.rename x name)) :=
    agrees_functions (ModuleContext.alike_rename hx) False.elim fun _ =>
      sameLookups_rename hx fun _ => .inl
  have survey : Agrees False (fun a b => a = s ∧ b = s) Literal ctx (ctx.rename x name)
      (surveyConstants (ctx.program.module ctx.module).constants) := by
    rintro _ _ ⟨rfl, rfl⟩
    rw [hsurvey]
    exact ⟨surveyed, renamed, shared_self literal⟩
  have declared : ∀ f ∈ (ctx.program.module ctx.module).functions, SameFunction ctx
      (ctx.rename x name) (Shared fun k => k.literals.contains x) f.symbol :=
    fun f hf => sameFunction_rename (hfunctions f hf).1
  have agrees := agrees_module survey functions.toStatementProperty declared
    (functions.constants_of fun d hd => agrees_constant_literal hx (listed d hd) surveyed) functions
    declared
    (fun f hf symbol hsymbol => ModuleContext.sameSymbol_rename fun h =>
      (hfunctions f hf).2 (h ▸ hsymbol))
    fun _ _ _ _ => trivial
  obtain ⟨t', hrun', hrel⟩ := agrees.done ⟨rfl, rfl⟩ hrun
  obtain ⟨rfl, -⟩ := eq_of_shared hrel
  exact hrun'

theorem module_rename_placeholder {before after : List Constant} {c : Constant}
    {s t : EmissionState}
    (hcs : (ctx.program.module ctx.module).constants = before ++ c :: after) (hc : c.symbol = x)
    (hbefore : ∀ d ∈ before, d.symbol ≠ x ∧ ∀ init, d.init = some init → x ∉ init.referred)
    (hafter : ∀ d ∈ after, d.symbol ≠ x)
    (hplaceholder : (ctx.program.symbol x).isPlaceholder = true)
    (hplaceholder' : ((ctx.rename x name).program.symbol x).isPlaceholder = true)
    {init : Expr} (hinit : c.init = some init) (hreferred : x ∉ init.referred)
    (hnamed : ∀ portable e, ctx.program.RendersAt ctx.module portable e → x ∉ e.named)
    (hfunctions : ∀ f ∈ (ctx.program.module ctx.module).functions,
      f.symbol ≠ x ∧ x ∉ Stmt.localsAll f.body)
    (hrun : module (ctx.program.module ctx.module) ctx s = (.ok (), t)) :
    module (ctx.program.module ctx.module) (ctx.rename x name) s = (.ok (), t) ∧
      Known x t.tables.known := by
  have alike : ctx.Alike (ctx.rename x name) := ModuleContext.alike_rename hx
  have listed : ∀ d ∈ (ctx.program.module ctx.module).constants, ctx.Lists d.symbol :=
    fun d hd => ⟨d, hd, rfl⟩
  have placeholders : ∀ d : Constant, (ctx.program.symbol d.symbol).isPlaceholder =
      ((ctx.rename x name).program.symbol d.symbol).isPlaceholder := by
    intro d
    by_cases h : d.symbol = x
    · rw [h, hplaceholder, hplaceholder']
    · rw [ModuleContext.sameSymbol_rename h]
  have functions (Holds : Classification → Prop) (Renders : Bool → Expr → Prop)
      (h : ∀ portable e, Renders portable e → ∀ k, Holds k → Hides x k e) :
      FunctionProperty ctx (ctx.rename x name) (Shared Holds) Renders
        (Agrees False (s.Abreast s (Shared Holds) Eq) (s.Abreast s (Shared Holds) Eq) ctx
          (ctx.rename x name)) :=
    agrees_functions alike False.elim fun he => sameLookups_rename hx (h _ _ he)
  have declared (Holds : Classification → Prop) : ∀ f ∈ (ctx.program.module ctx.module).functions,
      SameFunction ctx (ctx.rename x name) (Shared Holds) f.symbol :=
    fun f hf => sameFunction_rename (hfunctions f hf).1
  have constants : Agrees False (s.Abreast s (Shared fun _ => True) Eq)
      (s.Abreast s (Shared (Known x)) Eq) ctx (ctx.rename x name)
      (constants (ctx.program.module ctx.module).constants) := by
    have after' : ∀ d ∈ after, d.symbol ≠ x ∧ ∀ init, d.init = some init → x ∉ init.named :=
      fun d hd => ⟨hafter d hd, fun init hinit =>
        hnamed _ _ (.constant (by rw [hcs]; simp [hd]) hinit)⟩
    rw [hcs] at listed ⊢
    exact agrees_constants_placeholder hx listed hc hbefore after' hplaceholder hplaceholder' hinit
      hreferred s
  have agrees := agrees_module
    (agrees_surveyConstants alike False.elim steady_any listed fun d _ =>
      ⟨placeholders d, fun init _ => sameSurvey_rename hx d.symbol init⟩)
    (functions (fun _ => True) (fun _ _ => False) fun _ _ he => he.elim).toStatementProperty
    (declared _) constants
    (functions (Known x) _ fun portable e he k hk =>
      hk.imp_right fun h => ⟨hnamed portable e he, .inl h⟩)
    (declared _)
    (fun f hf symbol hsymbol => ModuleContext.sameSymbol_rename fun h =>
      (hfunctions f hf).2 (h ▸ hsymbol))
    fun f hf e he => .body hf he
  exact agrees.same trivial hrun

end
end Emission
end ColorLowering
