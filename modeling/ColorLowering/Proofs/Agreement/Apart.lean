import ColorLowering.Proofs.Agreement.Module
import ColorLowering.Proofs.Constants.Entries
import ColorLowering.Proofs.Defaults.Sharing

/-!
# What a module can touch

A module enters the constants that it lists and the functions that it owns, and keeps texts of
defaults for itself. Where two states of the tables are the same apart from what some other module
can touch, a module that refers to none of its constants is lowered alike from both, and both are
left the same apart from it.
-/
namespace ColorLowering

namespace Table

variable {α β : Type} [DecidableEq α] {t t' : Table α β} {key k : α} {value : β}

theorem get?_insert_congr (h : t.get? k = t'.get? k) :
    (t.insert key value).get? k = (t'.insert key value).get? k := by
  rw [get?_insert, get?_insert, h]

theorem get?_foldl_insert_congr (keys : List α) (h : t.get? k = t'.get? k) :
    (keys.foldl (fun t key => t.insert key value) t).get? k =
      (keys.foldl (fun t key => t.insert key value) t').get? k := by
  induction keys generalizing t t' with
  | nil => exact h
  | cons key rest ih => exact ih (get?_insert_congr h)

theorem get?_foldl_insert_of_notMem {keys : List α} (h : k ∉ keys) :
    (keys.foldl (fun t key => t.insert key value) t).get? k = t.get? k := by
  induction keys generalizing t with
  | nil => rfl
  | cons key rest ih =>
      rw [List.mem_cons, not_or] at h
      rw [List.foldl_cons, ih h.2, get?_insert_of_ne h.1]

end Table

theorem ModuleContext.ne_of_lists (ctx : ModuleContext) {symbol other : SymbolId}
    (hsymbol : ctx.Lists symbol)
    (hother : Unlisted (ctx.program.module ctx.module).constants other) : other ≠ symbol := by
  obtain ⟨c, hc, rfl⟩ := hsymbol
  exact (hother c hc).symm

namespace Classification

theorem SameEntry.reference {k k' : Classification} {symbol : SymbolId}
    (h : SameEntry k k' symbol) : SameReference k k' symbol :=
  ⟨h.literal, by rw [Table.contains, Table.contains, h.global], h.default⟩

theorem eq_of_sameEntry {k k' : Classification} (entry : ∀ symbol, SameEntry k k' symbol)
    (called : ∀ symbol, k.calledInInit.get? symbol = k'.calledInInit.get? symbol) : k = k' := by
  have literals : k.literals = k'.literals := Table.ext (funext fun x => (entry x).literal)
  have folded : k.folded = k'.folded := Table.ext (funext fun x => (entry x).folded)
  have globals : k.globals = k'.globals := Table.ext (funext fun x => (entry x).global)
  have strategies : k.strategies = k'.strategies := Table.ext (funext fun x => (entry x).strategy)
  have needs : k.needsModuleInit = k'.needsModuleInit :=
    Table.ext (funext fun x => (entry x).needsModuleInit)
  have defaults : k.defaults = k'.defaults := Table.ext (funext fun x => (entry x).default)
  have calls : k.calledInInit = k'.calledInInit := Table.ext (funext called)
  cases k
  cases k'
  simp_all only

/-- Both are the same apart from the constants that the module `m` lists and the calls of the
functions that it owns. -/
structure SameOff (p : Program) (m : ModuleId) (k k' : Classification) : Prop where
  entry : ∀ symbol, Unlisted (p.module m).constants symbol → SameEntry k k' symbol
  called : ∀ symbol, (p.symbol symbol).module ≠ some m →
    k.calledInInit.get? symbol = k'.calledInInit.get? symbol

namespace SameOff

variable {p : Program} {m : ModuleId} {k k' k'' : Classification}

theorem refl (k : Classification) : SameOff p m k k := ⟨fun _ _ => .refl k _, fun _ _ => rfl⟩

theorem symm (h : SameOff p m k k') : SameOff p m k' k :=
  ⟨fun symbol hsymbol => (h.entry symbol hsymbol).symm,
    fun symbol hsymbol => (h.called symbol hsymbol).symm⟩

theorem trans (h : SameOff p m k k') (h' : SameOff p m k' k'') : SameOff p m k k'' :=
  ⟨fun symbol hsymbol => (h.entry symbol hsymbol).trans (h'.entry symbol hsymbol),
    fun symbol hsymbol => (h.called symbol hsymbol).trans (h'.called symbol hsymbol)⟩

/-- Both sides may enter the same of any symbol. -/
theorem steady (ctx : ModuleContext) : ctx.Steady (SameOff p m) where
  literal {k k' symbol} text value _ h := by
    refine ⟨fun other hother => ?_, h.called⟩
    have same := h.entry other hother
    refine { same with literal := Table.get?_insert_congr same.literal, folded := ?_ }
    cases value with
    | none => exact same.folded
    | some v => exact Table.get?_insert_congr same.folded
  callees {k k' symbols} _ h := by
    refine ⟨fun other hother => ?_, fun other hother => ?_⟩
    · have same := h.entry other hother
      exact { same with }
    · exact Table.get?_foldl_insert_congr symbols (h.called other hother)
  needsModuleInit _ h := by
    refine ⟨fun other hother => ?_, h.called⟩
    have same := h.entry other hother
    exact { same with needsModuleInit := Table.get?_insert_congr same.needsModuleInit }
  global strategy _ h := by
    refine ⟨fun other hother => ?_, h.called⟩
    have same := h.entry other hother
    exact { same with
      global := Table.get?_insert_congr same.global
      strategy := Table.get?_insert_congr same.strategy }
  default text _ h := by
    refine ⟨fun other hother => ?_, h.called⟩
    have same := h.entry other hother
    exact { same with default := Table.get?_insert_congr same.default }

theorem steady_own {ctx : ModuleContext} (k₀ : Classification) :
    ctx.Steady fun k k' => k = k' ∧ SameOff ctx.program ctx.module k₀ k where
  literal {k k' symbol} text value hsymbol h := by
    refine ⟨by rw [h.1], h.2.trans ⟨fun other hother => ?_, fun _ _ => rfl⟩⟩
    have apart := ctx.ne_of_lists hsymbol hother
    refine ⟨(Table.get?_insert_of_ne apart).symm, ?_, rfl, rfl, rfl, rfl⟩
    cases value with
    | none => rfl
    | some v => exact (Table.get?_insert_of_ne apart).symm
  callees {k k' symbols} hsymbols h := by
    refine ⟨by rw [h.1], h.2.trans ⟨fun other _ => ⟨rfl, rfl, rfl, rfl, rfl, rfl⟩,
      fun other hother => (Table.get?_foldl_insert_of_notMem ?_).symm⟩⟩
    intro hmem
    exact hother (of_decide_eq_true (hsymbols other hmem))
  needsModuleInit hsymbol h := by
    refine ⟨by rw [h.1], h.2.trans ⟨fun other hother => ?_, fun _ _ => rfl⟩⟩
    exact ⟨rfl, rfl, rfl, rfl,
      (Table.get?_insert_of_ne (ctx.ne_of_lists hsymbol hother)).symm, rfl⟩
  global strategy hsymbol h := by
    refine ⟨by rw [h.1], h.2.trans ⟨fun other hother => ?_, fun _ _ => rfl⟩⟩
    have apart := ctx.ne_of_lists hsymbol hother
    exact ⟨rfl, rfl, (Table.get?_insert_of_ne apart).symm, (Table.get?_insert_of_ne apart).symm,
      rfl, rfl⟩
  default text hsymbol h := by
    refine ⟨by rw [h.1], h.2.trans ⟨fun other hother => ?_, fun _ _ => rfl⟩⟩
    exact ⟨rfl, rfl, rfl, rfl, rfl,
      (Table.get?_insert_of_ne (ctx.ne_of_lists hsymbol hother)).symm⟩

end SameOff
end Classification

namespace DefaultTexts

/-- Both keep texts or both keep none, and they keep the same apart from the module `m`. -/
structure SameOff (m : ModuleId) (t t' : DefaultTexts) : Prop where
  kept : t.kept.isSome = t'.kept.isSome
  text : ∀ id other, other ≠ m → t.get? (id, other) = t'.get? (id, other)

theorem eq_of_get? {t t' : DefaultTexts} (hkept : t.kept.isSome = t'.kept.isSome)
    (h : ∀ key, t.get? key = t'.get? key) : t = t' := by
  obtain ⟨kept⟩ := t
  obtain ⟨kept'⟩ := t'
  match kept, kept' with
  | none, none => rfl
  | none, some _ => cases hkept
  | some _, none => cases hkept
  | some _, some _ => exact congrArg (DefaultTexts.mk ∘ some) (Table.ext (funext h))

namespace SameOff

variable {m : ModuleId} {t t' t'' : DefaultTexts}

theorem refl (t : DefaultTexts) : SameOff m t t := ⟨rfl, fun _ _ _ => rfl⟩

theorem symm (h : SameOff m t t') : SameOff m t' t :=
  ⟨h.kept.symm, fun id other hother => (h.text id other hother).symm⟩

theorem trans (h : SameOff m t t') (h' : SameOff m t' t'') : SameOff m t t'' :=
  ⟨h.kept.trans h'.kept,
    fun id other hother => (h.text id other hother).trans (h'.text id other hother)⟩

theorem insert (h : SameOff m t t') (key : ExprId × ModuleId) (text : String) :
    SameOff m (t.insert key text) (t'.insert key text) := by
  obtain ⟨kept⟩ := t
  obtain ⟨kept'⟩ := t'
  obtain ⟨hkept, htext⟩ := h
  match kept, kept' with
  | none, none => exact ⟨rfl, fun _ _ _ => rfl⟩
  | none, some _ => cases hkept
  | some _, none => cases hkept
  | some _, some _ =>
      exact ⟨rfl, fun id other hother => Table.get?_insert_congr (htext id other hother)⟩

theorem insert_own (t : DefaultTexts) (id : ExprId) (text : String) :
    SameOff m t (t.insert (id, m) text) := by
  obtain ⟨kept⟩ := t
  cases kept with
  | none => exact ⟨rfl, fun _ _ _ => rfl⟩
  | some table =>
      refine ⟨rfl, fun id' other hother => (Table.get?_insert_of_ne ?_).symm⟩
      exact fun h => hother (Prod.mk.inj h).2

end SameOff
end DefaultTexts

namespace Emission

variable {ctx : ModuleContext} {portable : Bool} {e : Expr}

/-- In one context every expression is looked up as it is, and texts are kept for its module
alone. -/
theorem sameLookups_own {Holds : Classification → Prop} (t₀ : DefaultTexts) :
    SameLookups True (fun k k' => k = k' ∧ Holds k)
      (fun t t' => t = t' ∧ t₀.SameOff ctx.module t) ctx ctx portable e where
  named := by
    rintro k _ ⟨rfl, -⟩ _ _
    rfl
  filled := by
    rintro k _ ⟨rfl, -⟩ slot _
    cases slot with
    | required => trivial
    | optional param ty id default =>
        apply Slot.agrees_of_same (scope_alike (.refl ctx) (fun _ _ => rfl) k k portable)
          fun _ _ => ⟨rfl, fun _ => rfl⟩
        · rintro texts _ ⟨rfl, -⟩
          rfl
        · rintro texts _ text ⟨rfl, h⟩
          exact ⟨rfl, h.trans (.insert_own _ id text)⟩

/-- An expression that refers to no constant of another module is looked up alike whatever is known
of these. -/
theorem sameLookups_off {other : ModuleId} (hother : ctx.module ≠ other)
    (he : ∀ symbol ∈ e.referred, Unlisted (ctx.program.module other).constants symbol) :
    SameLookups True (Classification.SameOff ctx.program other) (DefaultTexts.SameOff other)
      ctx ctx portable e where
  named {k k'} hk symbol hsymbol := by
    have unlisted := he symbol (e.named_subset_referred hsymbol)
    exact Scope.resolve_congr (ctx.sameModule k k' portable portable) rfl
      (hk.entry symbol unlisted).reference
  filled {k k'} hk slot hslot := by
    cases slot with
    | required => trivial
    | optional param ty id default =>
        apply Slot.agrees_of_same (scope_alike (.refl ctx) (fun _ _ => rfl) k k' portable)
        · intro symbol hplain
          have reference := (hk.entry symbol (he symbol (Expr.referred_of_filled e hslot
            (Expr.mem_referred_of_plainName? hplain)))).reference
          exact ⟨reference.defaults,
            fun _ => Scope.resolve_congr (ctx.sameModule k k' portable portable) rfl reference⟩
        · exact fun texts texts' h => h.text id ctx.module hother
        · exact fun texts texts' text h => h.insert _ text

theorem sameSurvey_own {Holds : Classification → Prop} (t₀ : DefaultTexts) (symbol : SymbolId)
    (init : Expr) : SameSurvey True (fun k k' => k = k' ∧ Holds k)
      (fun t t' => t = t' ∧ t₀.SameOff ctx.module t) ctx ctx symbol init where
  literal := by
    rintro k _ ⟨rfl, -⟩
    rfl
  folded := by
    rintro k _ ⟨rfl, -⟩
    rfl
  lookups := (sameLookups_own t₀).mono And.left

theorem sameSurvey_off {other : ModuleId} (hother : ctx.module ≠ other) (symbol : SymbolId)
    {init : Expr}
    (hinit : ∀ symbol ∈ init.referred, Unlisted (ctx.program.module other).constants symbol) :
    SameSurvey True (Classification.SameOff ctx.program other) (DefaultTexts.SameOff other) ctx ctx
      symbol init where
  literal hk := by
    apply Expr.isLiteral_congr
    intro name hname
    rw [Table.contains, Table.contains, (hk.entry name (hinit name hname)).literal]
  folded hk := by
    rw [ModuleContext.folded?, ModuleContext.folded?, Expr.value?_congr init
      fun name hname => (hk.entry name (hinit name hname)).folded]
  lookups := (sameLookups_off hother hinit).mono And.left

section
variable {base base' : EmissionState}

/-- From states with the same tables a module does the same, and enters nothing but its own. -/
theorem agrees_module_own (k₀ : Classification) (t₀ : DefaultTexts) :
    let Related := base.Abreast base'
      (fun k k' => k = k' ∧ Classification.SameOff ctx.program ctx.module k₀ k)
      (fun texts texts' => texts = texts' ∧ DefaultTexts.SameOff ctx.module t₀ texts)
    Agrees True Related Related ctx ctx (module (ctx.program.module ctx.module)) :=
  agrees_module_of_steady (.refl ctx) (fun _ _ => rfl) (Classification.SameOff.steady_own _)
    (fun _ => sameLookups_own _) (fun c _ init _ => sameSurvey_own _ c.symbol init)
    (fun c _ => ⟨rfl, fun _ _ h => by rw [h.1], fun _ _ h => by rw [h.1]⟩)
    (fun f _ => ⟨rfl, fun _ _ h => by rw [h.1]⟩) (fun _ _ _ _ => rfl)

end

/-- A module that ends has changed nothing apart from itself, entry routines added. -/
theorem sameOff_module {s t : EmissionState}
    (hrun : module (ctx.program.module ctx.module) ctx s = (.ok (), t)) :
    Classification.SameOff ctx.program ctx.module s.tables.known t.tables.known ∧
      DefaultTexts.SameOff ctx.module s.tables.defaultTexts t.tables.defaultTexts ∧
      s.tables.entries <+: t.tables.entries := by
  have start : s.Abreast s
      (fun k k' => k = k' ∧ Classification.SameOff ctx.program ctx.module s.tables.known k)
      (fun texts texts' => texts = texts' ∧
        DefaultTexts.SameOff ctx.module s.tables.defaultTexts texts) s s :=
    ⟨⟨rfl, .refl _⟩, ⟨rfl, .refl _⟩, .start rfl, .start rfl, [], by simp, by simp⟩
  obtain ⟨t', -, ht⟩ := (agrees_module_own _ _).done start hrun
  obtain ⟨added, hentries, -⟩ := ht.entries
  exact ⟨ht.known.2, ht.texts.2, added, hentries.symm⟩

end Emission
end ColorLowering
