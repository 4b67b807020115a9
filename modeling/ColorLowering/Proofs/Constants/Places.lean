import ColorLowering.Proofs.Constants.Entries
import ColorLowering.Proofs.Emission.Heading
import Mathlib.Data.List.Nodup

/-!
# Where a module enters its constants

Surveying a module enters its literals, and lowering its constants enters every other one as a
declared global or as a placeholder. Nothing is entered twice, and no other symbol is touched.
-/
namespace ColorLowering

/-- In how many of the tables of literals, globals and placeholder texts the symbol is. -/
def Classification.places (k : Classification) (symbol : SymbolId) : Nat :=
  (k.literals.contains symbol).toNat + (k.globals.contains symbol).toNat +
    (k.defaults.contains symbol).toNat

/-- The tables beside those three have the keys that they should. -/
structure Classification.Aligned (k : Classification) : Prop where
  strategies : ∀ symbol, k.strategies.contains symbol = k.globals.contains symbol
  folded : ∀ symbol, k.folded.contains symbol → k.literals.contains symbol

namespace Classification

theorem SameEntry.places {k k' : Classification} {symbol : SymbolId}
    (h : SameEntry k k' symbol) : k'.places symbol = k.places symbol := by
  simp only [Classification.places, Table.contains, h.literal, h.global, h.default]

theorem aligned_empty : empty.Aligned := ⟨fun _ => rfl, fun _ h => h⟩

theorem Aligned.addLiteral {k : Classification} (hk : k.Aligned) (symbol : SymbolId)
    (text : String) (value : Option Value) : (k.addLiteral symbol text value).Aligned where
  strategies := hk.strategies
  folded other h := by
    cases value with
    | none => simp [Classification.addLiteral, hk.folded other h]
    | some v =>
        simp only [Classification.addLiteral, Table.contains_insert, Bool.or_eq_true] at h ⊢
        exact h.imp_right (hk.folded other)

theorem Aligned.addGlobal {k : Classification} (hk : k.Aligned) (symbol : SymbolId)
    (strategy : Strategy) : (k.addGlobal symbol strategy).Aligned where
  strategies other := by simp [Classification.addGlobal, hk.strategies other]
  folded := hk.folded

end Classification

namespace Emission

open Classification

theorem aligned_frame : ModuleFrame
    (fun s t => s.tables.known.Aligned → t.tables.known.Aligned) (fun _ _ => True) where
  refl _ h := h
  trans hst htu h := htu (hst h)
  stop _ := trivial
  fail _ _ := trivial
  texts _ _ h := h
  line _ _ h := h
  blank _ h := h
  braced _ h := h
  bracedFailed _ := trivial
  indented h := h
  indentedFailed _ := trivial
  header _ _ h := h
  entry _ _ h := h
  global _ symbol strategy h := h.addGlobal symbol strategy
  default _ _ _ h := ⟨h.strategies, h.folded⟩
  literal _ symbol text value h := h.addLiteral symbol text value
  callees _ _ h := ⟨h.strategies, h.folded⟩
  needsModuleInit _ _ h := ⟨h.strategies, h.folded⟩

theorem entered_frame : SurveyFrame
    (fun s t => t.tables.known.globals = s.tables.known.globals ∧
      t.tables.known.defaults = s.tables.known.defaults) (fun _ _ => True) where
  refl _ := ⟨rfl, rfl⟩
  trans hst htu := ⟨htu.1.trans hst.1, htu.2.trans hst.2⟩
  stop _ := trivial
  fail _ _ := trivial
  texts _ _ := ⟨rfl, rfl⟩
  line _ _ := ⟨rfl, rfl⟩
  blank _ := ⟨rfl, rfl⟩
  braced _ h := h
  bracedFailed _ := trivial
  indented h := h
  indentedFailed _ := trivial
  literal _ _ _ _ := ⟨rfl, rfl⟩
  callees _ _ := ⟨rfl, rfl⟩
  needsModuleInit _ _ := ⟨rfl, rfl⟩

variable {ctx : ModuleContext} {s t : EmissionState}

theorem Surveys.literals {c : Constant} (h : Surveys ctx c s t) :
    t.tables.known.literals = s.tables.known.literals ∨
      c.init ≠ none ∧ ∃ text,
        t.tables.known.literals = s.tables.known.literals.insert c.symbol text := by
  cases h with
  | bare _ => exact .inl rfl
  | folded hinit _ _ _ => exact .inr ⟨by simp [hinit], _, rfl⟩
  | verbatim hinit _ _ _ _ => exact .inr ⟨by simp [hinit], _, rfl⟩
  | calling _ _ => exact .inl rfl
  | waiting _ _ => exact .inl rfl

/-- The literals after a survey are those before it and constants that it looked at. -/
theorem literals_of_surveyConstants {cs : List Constant}
    (hrun : surveyConstants cs ctx s = (.ok (), t)) (symbol : SymbolId) :
    (s.tables.known.literals.contains symbol → t.tables.known.literals.contains symbol) ∧
      (t.tables.known.literals.contains symbol → s.tables.known.literals.contains symbol ∨
        ∃ c ∈ cs, c.symbol = symbol ∧ c.init ≠ none) := by
  induction cs generalizing s with
  | nil =>
      cases hrun
      exact ⟨id, .inl⟩
  | cons c rest ih =>
      obtain ⟨u, hc, hrest⟩ := surveyConstants_cons_ok hrun
      obtain ⟨hkept, hentered⟩ := ih hrest
      obtain hsame | ⟨hinit, text, hinsert⟩ := hc.literals
      · rw [hsame] at hkept hentered
        refine ⟨hkept, fun h => (hentered h).imp_right ?_⟩
        rintro ⟨d, hd, hsymbol⟩
        exact ⟨d, List.mem_cons_of_mem _ hd, hsymbol⟩
      · simp only [hinsert, Table.contains_insert, Bool.or_eq_true, decide_eq_true_eq]
          at hkept hentered
        refine ⟨fun h => hkept (.inr h), fun h => ?_⟩
        rcases hentered h with (rfl | hbefore) | ⟨d, hd, hsymbol⟩
        · exact .inr ⟨c, List.mem_cons_self, rfl, hinit⟩
        · exact .inl hbefore
        · exact .inr ⟨d, List.mem_cons_of_mem _ hd, hsymbol⟩

end Emission

/-- Whether nothing is known of the constant once it is lowered: it stands for a default value that
was not given. -/
def Program.isUnplaced (p : Program) (c : Constant) : Bool :=
  (p.symbol c.symbol).isPlaceholder && c.init.isNone

namespace Emission

open Classification

variable {ctx : ModuleContext} {s t : EmissionState}

/-- A constant that is no global and no placeholder yet is in one table once it is lowered. -/
theorem places_of_constant {c : Constant} {out : Option LoweredConstant}
    (hrun : constant c ctx s = (.ok out, t))
    (hglobals : s.tables.known.globals.contains c.symbol = false)
    (hdefaults : s.tables.known.defaults.contains c.symbol = false)
    (hliterals : ctx.program.isUnplaced c → s.tables.known.literals.contains c.symbol = false) :
    t.tables.known.places c.symbol = if ctx.program.isUnplaced c then 0 else 1 := by
  obtain ⟨-, homits⟩ | ⟨lowered, -, hliteral, hplaceholder, hdeclares⟩ := constant_ok hrun
  · cases homits with
    | literal hliteral =>
        have placed : ctx.program.isUnplaced c = false := by
          cases h : ctx.program.isUnplaced c with
          | false => rfl
          | true => rw [hliterals h] at hliteral; cases hliteral
        simp [places, hliteral, hglobals, hdefaults, placed]
    | bare hliteral hplaceholder hinit =>
        simp [places, hliteral, hglobals, hdefaults, Program.isUnplaced, hplaceholder, hinit]
    | placeholder hliteral hplaceholder hinit _ _ =>
        simp [places, EmissionState.withKnown, addDefault, hliteral, hglobals,
          Program.isUnplaced, hinit]
  · obtain ⟨strategy, hknown, -⟩ := hdeclares.known
    simp [places, hknown, addGlobal, hliteral, hdefaults, Program.isUnplaced, hplaceholder]

/-- Constants listed once that are in no table but that of literals are in one each once they are
lowered. -/
theorem places_of_constantList {cs : List Constant} {out : List LoweredConstant}
    (hrun : constantList cs ctx s = (.ok out, t)) (honce : (cs.map Constant.symbol).Nodup)
    (hglobals : ∀ c ∈ cs, s.tables.known.globals.contains c.symbol = false)
    (hdefaults : ∀ c ∈ cs, s.tables.known.defaults.contains c.symbol = false)
    (hliterals : ∀ c ∈ cs, ctx.program.isUnplaced c →
      s.tables.known.literals.contains c.symbol = false) :
    ∀ c ∈ cs, t.tables.known.places c.symbol = if ctx.program.isUnplaced c then 0 else 1 := by
  induction cs generalizing s out with
  | nil => simp
  | cons first rest ih =>
      obtain ⟨lowered, u, others, hfirst, hothers, rfl⟩ := constantList_cons_ok hrun
      rw [List.map_cons, List.nodup_cons, List.mem_map] at honce
      obtain ⟨hapart, honce⟩ := honce
      have apart : ∀ c ∈ rest, c.symbol ≠ first.symbol := fun c hc heq => hapart ⟨c, hc, heq⟩
      have kept : ∀ c ∈ rest, SameEntry s.tables.known u.tables.known c.symbol :=
        fun c hc => sameEntry_of_constant hfirst (apart c hc).symm
      intro c hc
      rcases List.mem_cons.mp hc with rfl | hrest
      · rw [(sameEntry_of_constantList hothers apart).places]
        exact places_of_constant hfirst (hglobals c hc) (hdefaults c hc) (hliterals c hc)
      · refine ih hothers honce ?_ ?_ ?_ c hrest
        · intro d hd
          rw [Table.contains, ← (kept d hd).global]
          exact hglobals d (List.mem_cons_of_mem _ hd)
        · intro d hd
          rw [Table.contains, ← (kept d hd).default]
          exact hdefaults d (List.mem_cons_of_mem _ hd)
        · intro d hd hunplaced
          rw [Table.contains, ← (kept d hd).literal]
          exact hliterals d (List.mem_cons_of_mem _ hd) hunplaced

/-- A module enters its own constants, each in one table, and leaves every other symbol alone. -/
theorem places_of_module {m : Module} (honce : (m.constants.map Constant.symbol).Nodup)
    (hnew : ∀ c ∈ m.constants, s.tables.known.places c.symbol = 0)
    (hrun : module m ctx s = (.ok (), t)) :
    (∀ c ∈ m.constants,
      t.tables.known.places c.symbol = if ctx.program.isUnplaced c then 0 else 1) ∧
    ∀ symbol, (∀ c ∈ m.constants, c.symbol ≠ symbol) →
      t.tables.known.places symbol = s.tables.known.places symbol := by
  obtain ⟨start, closed, lowered, hheading, hlist, -, hclosed⟩ := module_runs hrun
  obtain ⟨surveyed, hsurvey, hstart⟩ := heading_surveys hheading
  have hnone : ∀ c ∈ m.constants, s.tables.known.literals.contains c.symbol = false ∧
      s.tables.known.globals.contains c.symbol = false ∧
      s.tables.known.defaults.contains c.symbol = false := by
    intro c hc
    have h := hnew c hc
    simp only [places, Nat.add_eq_zero_iff, Bool.toNat_eq_zero] at h
    exact ⟨h.1.1, h.1.2, h.2⟩
  have entered := (entered_frame.within_surveyConstants m.constants).done hsurvey
  rw [hclosed]
  constructor
  · apply places_of_constantList hlist honce
    · intro c hc
      rw [hstart, entered.1]
      exact (hnone c hc).2.1
    · intro c hc
      rw [hstart, entered.2]
      exact (hnone c hc).2.2
    · intro c hc hunplaced
      rw [hstart, Bool.eq_false_iff]
      intro hliteral
      rcases (literals_of_surveyConstants hsurvey c.symbol).2 hliteral with h | ⟨d, hd, heq, hinit⟩
      · rw [(hnone c hc).1] at h
        cases h
      · obtain rfl : d = c := List.inj_on_of_nodup_map honce hd hc heq
        rw [Program.isUnplaced, Bool.and_eq_true, Option.isNone_iff_eq_none] at hunplaced
        exact hinit hunplaced.2
  · intro symbol hother
    have h := sameEntry_of_surveyConstants hsurvey hother
    rw [← hstart] at h
    exact (h.trans (sameEntry_of_constantList hlist hother)).places

end Emission
end ColorLowering
