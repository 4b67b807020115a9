import ColorLowering.Proofs.Constants.Lowering
import ColorLowering.Proofs.Constants.Survey

/-!
# Constants enter themselves

Surveying a constant and lowering it enter nothing of any other symbol, so what was entered of a
symbol is still there once the constants after it are done.
-/
namespace ColorLowering

structure Classification.SameEntry (k k' : Classification) (symbol : SymbolId) : Prop where
  literal : k.literals.get? symbol = k'.literals.get? symbol
  folded : k.folded.get? symbol = k'.folded.get? symbol
  global : k.globals.get? symbol = k'.globals.get? symbol
  strategy : k.strategies.get? symbol = k'.strategies.get? symbol
  needsModuleInit : k.needsModuleInit.get? symbol = k'.needsModuleInit.get? symbol
  default : k.defaults.get? symbol = k'.defaults.get? symbol

namespace Classification.SameEntry

variable {k k' k'' : Classification} {symbol : SymbolId}

theorem refl (k : Classification) (symbol : SymbolId) : SameEntry k k symbol :=
  ⟨rfl, rfl, rfl, rfl, rfl, rfl⟩

theorem symm (h : SameEntry k k' symbol) : SameEntry k' k symbol :=
  ⟨h.literal.symm, h.folded.symm, h.global.symm, h.strategy.symm, h.needsModuleInit.symm,
    h.default.symm⟩

theorem trans (h : SameEntry k k' symbol) (h' : SameEntry k' k'' symbol) :
    SameEntry k k'' symbol :=
  ⟨h.literal.trans h'.literal, h.folded.trans h'.folded, h.global.trans h'.global,
    h.strategy.trans h'.strategy, h.needsModuleInit.trans h'.needsModuleInit,
    h.default.trans h'.default⟩

end Classification.SameEntry

namespace Emission

open Classification

variable {ctx : ModuleContext} {s t : EmissionState} {symbol : SymbolId}

theorem Surveys.sameEntry {c : Constant} (h : Surveys ctx c s t) (hc : c.symbol ≠ symbol) :
    SameEntry s.tables.known t.tables.known symbol := by
  cases h with
  | bare _ => exact .refl _ _
  | folded _ _ _ _ =>
      exact { SameEntry.refl _ _ with
        literal := (Table.get?_insert_of_ne hc.symm).symm
        folded := (Table.get?_insert_of_ne hc.symm).symm }
  | verbatim _ _ _ _ _ =>
      exact { SameEntry.refl _ _ with literal := (Table.get?_insert_of_ne hc.symm).symm }
  | calling _ _ => exact ⟨rfl, rfl, rfl, rfl, rfl, rfl⟩
  | waiting _ _ => exact ⟨rfl, rfl, rfl, rfl, (Table.get?_insert_of_ne hc.symm).symm, rfl⟩

theorem sameEntry_of_surveyConstants {cs : List Constant}
    (hrun : surveyConstants cs ctx s = (.ok (), t)) (hcs : ∀ c ∈ cs, c.symbol ≠ symbol) :
    SameEntry s.tables.known t.tables.known symbol := by
  induction cs generalizing s with
  | nil =>
      cases hrun
      exact .refl _ _
  | cons c rest ih =>
      obtain ⟨u, hc, hrest⟩ := surveyConstants_cons_ok hrun
      obtain ⟨hfirst, hlater⟩ := List.forall_mem_cons.mp hcs
      exact (hc.sameEntry hfirst).trans (ih hrest hlater)

theorem sameEntry_of_constant {c : Constant} {out : Option LoweredConstant}
    (hrun : constant c ctx s = (.ok out, t)) (hc : c.symbol ≠ symbol) :
    SameEntry s.tables.known t.tables.known symbol := by
  obtain ⟨-, homits⟩ | ⟨lowered, -, -, -, hdeclares⟩ := constant_ok hrun
  · cases homits with
    | literal _ => exact .refl _ _
    | bare _ _ _ => exact .refl _ _
    | placeholder _ _ _ =>
        exact ⟨rfl, rfl, rfl, rfl, rfl, (Table.get?_insert_of_ne hc.symm).symm⟩
  · obtain ⟨strategy, hknown, -⟩ := hdeclares.known
    rw [hknown]
    exact ⟨rfl, rfl, (Table.get?_insert_of_ne hc.symm).symm, (Table.get?_insert_of_ne hc.symm).symm,
      rfl, rfl⟩

theorem sameEntry_of_constantList {cs : List Constant} {out : List LoweredConstant}
    (hrun : constantList cs ctx s = (.ok out, t)) (hcs : ∀ c ∈ cs, c.symbol ≠ symbol) :
    SameEntry s.tables.known t.tables.known symbol := by
  induction cs generalizing s out with
  | nil =>
      cases hrun
      exact .refl _ _
  | cons c rest ih =>
      obtain ⟨first, u, others, hfirst, hothers, rfl⟩ := constantList_cons_ok hrun
      obtain ⟨hc, hrest⟩ := List.forall_mem_cons.mp hcs
      exact (sameEntry_of_constant hfirst hc).trans (ih hothers hrest)

end Emission
end ColorLowering
