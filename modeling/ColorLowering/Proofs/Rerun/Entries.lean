import ColorLowering.Proofs.Agreement.Apart
import ColorLowering.Proofs.Session.ForwardDeclarations
import ColorLowering.Proofs.Session.Independence

/-!
# What stays entered

Constants are entered one at a time, and each enters nothing but itself: what a module has entered
of a constant is still there when the constants after it are done. To enter the same once more
changes nothing. Where modules and constants only mention what comes before them, the entries that a
run looks up are therefore the ones that it leaves behind.
-/
namespace ColorLowering

theorem Table.insert_eq_self {α β : Type} [DecidableEq α] {t : Table α β} {key : α} {value : β}
    (h : t.get? key = some value) : t.insert key value = t := by
  apply Table.ext
  funext k
  rw [get?_insert]
  split
  · rename_i heq
    rw [heq, h]
  · rfl

namespace Classification

variable {k k' k'' : Classification} {symbol : SymbolId}

theorem addCallees_eq_self {callees : List SymbolId}
    (hcalled : ∀ f ∈ callees, k.calledInInit.contains f) : k.addCallees callees = k := by
  have kept : callees.foldl (fun t f => t.insert f ()) k.calledInInit = k.calledInInit := by
    induction callees with
    | nil => rfl
    | cons f rest ih =>
        obtain ⟨hf, hrest⟩ := List.forall_mem_cons.mp hcalled
        obtain ⟨_, hentered⟩ := Table.contains_iff.mp hf
        rw [List.foldl_cons, Table.insert_eq_self hentered]
        exact ih hrest
  simp only [addCallees, kept]

structure SurveyedAlike (k k' : Classification) (symbol : SymbolId) : Prop where
  literal : k.literals.get? symbol = k'.literals.get? symbol
  folded : k.folded.get? symbol = k'.folded.get? symbol
  needsModuleInit : k.needsModuleInit.get? symbol = k'.needsModuleInit.get? symbol

theorem SurveyedAlike.trans (h : SurveyedAlike k k' symbol) (h' : SurveyedAlike k' k'' symbol) :
    SurveyedAlike k k'' symbol :=
  ⟨h.literal.trans h'.literal, h.folded.trans h'.folded,
    h.needsModuleInit.trans h'.needsModuleInit⟩

theorem SameEntry.surveyed (h : SameEntry k k' symbol) : SurveyedAlike k k' symbol :=
  ⟨h.literal, h.folded, h.needsModuleInit⟩

theorem SurveyedAlike.addLiteral_eq {text : String} {value : Option Value}
    (h : SurveyedAlike (k.addLiteral symbol text value) k' symbol) :
    k'.addLiteral symbol text value = k' := by
  have literal : k'.literals.get? symbol = some text :=
    h.literal.symm.trans (Table.get?_insert_self _ _ _)
  cases value with
  | none => simp only [addLiteral, Table.insert_eq_self literal]
  | some v =>
      have folded : k'.folded.get? symbol = some v :=
        h.folded.symm.trans (Table.get?_insert_self _ _ _)
      simp only [addLiteral, Table.insert_eq_self literal, Table.insert_eq_self folded]

theorem SurveyedAlike.addNeedsModuleInit_eq
    (h : SurveyedAlike (k.addNeedsModuleInit symbol) k' symbol) :
    k'.addNeedsModuleInit symbol = k' := by
  have needs : k'.needsModuleInit.get? symbol = some () :=
    h.needsModuleInit.symm.trans (Table.get?_insert_self _ _ _)
  simp only [addNeedsModuleInit, Table.insert_eq_self needs]

theorem SameEntry.addGlobal_eq {strategy : Strategy}
    (h : SameEntry (k.addGlobal symbol strategy) k' symbol) :
    k'.addGlobal symbol strategy = k' := by
  have global : k'.globals.get? symbol = some () :=
    h.global.symm.trans (Table.get?_insert_self _ _ _)
  have registered : k'.strategies.get? symbol = some strategy :=
    h.strategy.symm.trans (Table.get?_insert_self _ _ _)
  simp only [addGlobal, Table.insert_eq_self global, Table.insert_eq_self registered]

theorem SameEntry.addDefault_eq {text : String}
    (h : SameEntry (k.addDefault symbol text) k' symbol) : k'.addDefault symbol text = k' := by
  have default : k'.defaults.get? symbol = some text :=
    h.default.symm.trans (Table.get?_insert_self _ _ _)
  simp only [addDefault, Table.insert_eq_self default]

end Classification

/-- The symbols that an expression reads, calls or refers to through the arguments that it omits. -/
def Expr.mentioned (e : Expr) : List SymbolId := e.referred ++ e.names

namespace Program

def Settled (p : Program) (m : ModuleId) (symbol : SymbolId) : Prop :=
  ∀ later : ModuleId, m.index < later.index → Unlisted (p.module later).constants symbol

/-- Constants and functions are listed by the modules that own them. A module mentions constants of
its own and of modules before it, and an initializer those of its module that are listed before. -/
structure InDependencyOrder (p : Program) : Prop where
  constants : p.OwnsConstants
  functions : p.OwnsFunctions
  mentions : ∀ {m portable e}, p.RendersAt m portable e → ∀ symbol ∈ e.mentioned, p.Settled m symbol
  ordered : ∀ {m before c after init}, (p.module m).constants = before ++ c :: after →
    c.init = some init → ∀ symbol ∈ init.mentioned, Unlisted (c :: after) symbol

theorem OwnsConstants.settled {p : Program} (hp : p.OwnsConstants) {m : ModuleId} {c : Constant}
    (hc : c ∈ (p.module m).constants) : p.Settled m c.symbol := by
  intro later hlater d hd heq
  have howner := hp.owned later d hd
  rw [heq, hp.owned m c hc] at howner
  obtain rfl := Option.some.inj howner
  exact Nat.lt_irrefl _ hlater

theorem OwnsConstants.unlisted {p : Program} (hp : p.OwnsConstants) {m : ModuleId}
    {before after : List Constant} {c : Constant}
    (hcs : (p.module m).constants = before ++ c :: after) : Unlisted after c.symbol := by
  have honce := hp.once m
  rw [hcs, List.map_append, List.map_cons, List.nodup_append, List.nodup_cons] at honce
  exact fun d hd heq => honce.2.1.1 (List.mem_map.mpr ⟨d, hd, heq⟩)

end Program

namespace Emission

open Classification

/-- Lowering constants adds nothing to what the survey entered. -/
theorem surveyed_frame : ConstantFrame
    (fun s t => ∀ symbol, SurveyedAlike s.tables.known t.tables.known symbol)
    (fun _ _ => True) where
  refl _ _ := ⟨rfl, rfl, rfl⟩
  trans hst htu symbol := (hst symbol).trans (htu symbol)
  stop _ := trivial
  fail _ _ := trivial
  texts _ _ _ := ⟨rfl, rfl, rfl⟩
  line _ _ _ := ⟨rfl, rfl, rfl⟩
  blank _ _ := ⟨rfl, rfl, rfl⟩
  braced _ h := h
  bracedFailed _ := trivial
  indented h := h
  indentedFailed _ := trivial
  global _ _ _ _ := ⟨rfl, rfl, rfl⟩
  default _ _ _ _ := ⟨rfl, rfl, rfl⟩

end Emission
end ColorLowering
