import ColorLowering.Proofs.Defaults.Reuse

/-!
# The texts recorded for placeholders

Every text that a module records for a placeholder is its initializer, rendered as the list of
constants comes to it. Constants of the module that are listed before it are literals or globals by
then. Where the module shares its defaults, the text is what it would be with no text kept.
-/
namespace ColorLowering

/-- Before these constants of its module a text can name the symbol: it is a function, or a constant
listed before them that is no placeholder. -/
def Program.Nameable (p : Program) (m : ModuleId) (cs : List Constant) (symbol : SymbolId) : Prop :=
  (p.symbol symbol).isFunction ∨ (p.symbol symbol).isPlaceholder = false ∧
    Unlisted cs symbol ∧ ∃ d ∈ (p.module m).constants, d.symbol = symbol

namespace Emission

/-- The text that the placeholder gets while the module of `ctx` is lowered from the state `s`: its
initializer as the list of constants comes to it, rendered for any module with no text of a default
kept. Every name that it can use is qualified by then. -/
inductive Records (ctx : ModuleContext) (s : EmissionState) : SymbolId → String → Prop
  | placeholder {before after : List Constant} {c : Constant} {init : Expr} {strategy : Strategy}
      {lowered : List LoweredConstant} {start t : EmissionState} {text : String} :
      (ctx.program.module ctx.module).constants = before ++ c :: after → c.init = some init →
      heading (ctx.program.module ctx.module) ctx s = (.ok (), start) →
      constantList before ctx start = (.ok lowered, t) →
      ctx.chosenStrategy? t.tables.known c = some strategy →
      (ctx.placeholderText t.anew c strategy init).1 = .ok text →
      (∀ symbol, ctx.program.Nameable ctx.module (c :: after) symbol →
        (ctx.scope t.tables.known true).Qualifies symbol) →
      Records ctx s c.symbol text

variable {ctx : ModuleContext} {s u : EmissionState}

/-- A constant that is no placeholder is a literal or a global once it is lowered. -/
theorem entered_of_constant {c : Constant} {out : Option LoweredConstant} {t : EmissionState}
    (hrun : constant c ctx s = (.ok out, t))
    (hdeclared : (ctx.program.symbol c.symbol).isPlaceholder = false) :
    t.tables.known.literals.contains c.symbol ∨ t.tables.known.globals.contains c.symbol := by
  obtain ⟨-, homits⟩ | ⟨lowered, -, -, -, hdeclares⟩ := constant_ok hrun
  · cases homits with
    | literal hliteral => exact .inl hliteral
    | bare _ hplaceholder _ => rw [hdeclared] at hplaceholder; cases hplaceholder
    | placeholder _ hplaceholder _ _ _ => rw [hdeclared] at hplaceholder; cases hplaceholder
  · obtain ⟨strategy, hknown, -⟩ := hdeclares.known
    exact .inr (by simp [hknown, Classification.addGlobal])

theorem referable_frame (symbol : SymbolId) : ConstantFrame
    (fun s t => s.tables.known.literals.contains symbol ∨ s.tables.known.globals.contains symbol →
      t.tables.known.literals.contains symbol ∨ t.tables.known.globals.contains symbol)
    (fun _ _ => True) where
  refl _ h := h
  trans hst htu h := htu (hst h)
  stop _ := trivial
  fail _ _ := trivial
  texts _ _ h := h
  line _ _ h := h
  blank _ h := h
  braced _ h := h
  bracedFailed _ := trivial
  indented h := h
  indentedFailed _ := trivial
  global _ _ _ h := h.imp_right fun hglobal => by
    simp [EmissionState.withKnown, Classification.addGlobal, hglobal]
  default _ _ _ h := h

theorem referable_of_constantList {cs : List Constant} {out : List LoweredConstant}
    (hrun : constantList cs ctx s = (.ok out, u)) {c : Constant} (hc : c ∈ cs)
    (hdeclared : (ctx.program.symbol c.symbol).isPlaceholder = false) :
    u.tables.known.literals.contains c.symbol ∨ u.tables.known.globals.contains c.symbol := by
  obtain ⟨before, after, rfl⟩ := List.append_of_mem hc
  obtain ⟨early, t, late, -, hfrom, rfl⟩ := constantList_append_ok hrun
  obtain ⟨first, t', others, hfirst, hafter, rfl⟩ := constantList_cons_ok hfrom
  exact ((referable_frame c.symbol).within_constantList after).done hafter
    (entered_of_constant hfirst hdeclared)

/-- A text for a placeholder that was not there before was rendered for a constant of the list. -/
theorem default_of_constantList {cs : List Constant} {out : List LoweredConstant}
    (hrun : constantList cs ctx s = (.ok out, u)) {symbol : SymbolId} {text : String}
    (htext : u.tables.known.defaults.get? symbol = some text) :
    s.tables.known.defaults.get? symbol = some text ∨
      ∃ before c after lowered t init strategy, cs = before ++ c :: after ∧ c.symbol = symbol ∧
        c.init = some init ∧ (ctx.program.symbol symbol).isPlaceholder = true ∧
        constantList before ctx s = (.ok lowered, t) ∧
        ctx.chosenStrategy? t.tables.known c = some strategy ∧
        (ctx.placeholderText t c strategy init).1 = .ok text := by
  induction cs generalizing s out with
  | nil =>
      cases hrun
      exact .inl htext
  | cons first rest ih =>
      obtain ⟨lowered, t, others, hfirst, hothers, rfl⟩ := constantList_cons_ok hrun
      obtain hbefore | ⟨before, c, after, early, t', init, strategy, rfl, hsymbol, hinit,
        hplaceholder, hearly, hchosen, hrendered⟩ := ih hothers
      · have kept (hsame : t.tables.known.defaults = s.tables.known.defaults) :
            s.tables.known.defaults.get? symbol = some text := by rwa [← hsame]
        obtain ⟨rfl, homits⟩ | ⟨_, rfl, -, -, hdeclares⟩ := constant_ok hfirst
        · cases homits with
          | literal _ | bare _ _ _ => exact .inl hbefore
          | placeholder _ hplaceholder hinit hchosen hrendered =>
              simp only [EmissionState.withKnown, Classification.addDefault, Table.get?_insert]
                at hbefore
              split at hbefore
              · subst symbol
                obtain rfl := Option.some.inj hbefore
                exact .inr ⟨[], first, rest, [], s, _, _, rfl, rfl, hinit, hplaceholder, rfl,
                  hchosen, by rw [hrendered]⟩
              · exact .inl hbefore
        · obtain ⟨strategy, hknown, -⟩ := hdeclares.known
          exact .inl (kept (by rw [hknown]; rfl))
      · refine .inr ⟨first :: before, c, after, lowered.toList ++ early, t', init, strategy, rfl,
          hsymbol, hinit, hplaceholder, ?_, hchosen, hrendered⟩
        exact bind_eq_ok.mpr ⟨lowered, t, hfirst, bind_eq_ok.mpr ⟨early, t', hearly, rfl⟩⟩

/-- A module that shares its defaults records nothing but such texts. -/
theorem records_of_module {done : List ModuleId} (hp : ctx.program.SharesDefaults ctx.module)
    (hdone : ctx.module ∉ done) (hs : s.tables.defaultTexts.KeptFor done)
    (hrun : module (ctx.program.module ctx.module) ctx s = (.ok (), u)) {symbol : SymbolId}
    {text : String} (htext : u.tables.known.defaults.get? symbol = some text) :
    s.tables.known.defaults.get? symbol = some text ∨ Records ctx s symbol text := by
  obtain ⟨start, closed, lowered, hheading, hlist, -, hclosed⟩ := module_runs hrun
  obtain ⟨surveyed, hsurvey, hstart⟩ := heading_surveys hheading
  have unchanged : start.tables.known.defaults = s.tables.known.defaults := by
    rw [hstart, ((entered_frame.within_surveyConstants _).done hsurvey).2]
  rw [hclosed] at htext
  obtain hbefore | ⟨before, c, after, early, t, init, strategy, hcs, rfl, hinit, hplaceholder,
    hearly, hchosen, hrendered⟩ := default_of_constantList hlist htext
  · exact .inl (unchanged ▸ hbefore)
  · have reuses := (transparent_heading hp hdone s hs).2 () start hheading
    rw [hcs] at reuses
    have comes := (transparent_constantList hp hdone [] before (c :: after) hcs start reuses).2
      early t hearly
    have listed : c ∈ (ctx.program.module ctx.module).constants := by simp [hcs]
    have settled : RendersSettled ctx (Unlisted (c :: after)) true init := by
      refine ⟨?_, fun _ _ _ hfills => hp.ordered hcs hinit hfills⟩
      rw [← hplaceholder]
      exact .constant listed hinit
    have fresh := ((follows_placeholder hp hdone settled
      (Text.unqualified (ctx.program.symbol c.symbol).name) strategy
      (ctx.program.symbol c.symbol).ty t.tables.known).2 _ comes).1
    refine .inr (.placeholder hcs hinit hheading hearly hchosen (fresh.symm.trans hrendered) ?_)
    rintro symbol (hfunction | ⟨hdeclared, hunlisted, d, hd, rfl⟩)
    · exact Scope.qualifies_of_qualifyAll rfl (.inl hfunction)
    · have earlier : d ∈ before := by
        rw [hcs] at hd
        exact (List.mem_append.mp hd).resolve_right fun hafter => hunlisted d hafter rfl
      exact Scope.qualifies_of_qualifyAll rfl
        (.inr (referable_of_constantList hearly earlier hdeclared))

end Emission
end ColorLowering
