import ColorLowering.Proofs.Constants.Entries
import ColorLowering.Proofs.Emission.Heading

/-!
# Which constants are substituted

The survey decides by the initializer of a constant alone. A constant becomes a literal exactly when
its initializer is built from literals, operators and constants that are literals already; whether
it may be written makes no difference.
-/
namespace ColorLowering

/-- The expression is built from literals, operators and names of constants among `planned`. The
initializer of each such constant is no aggregate and is built in this way from those before it. -/
inductive Expr.FromLiterals : List Constant → Expr → Prop
  | literal {planned : List Constant} (ty : Ty) (value : Literal) :
      FromLiterals planned (.literal ty value)
  | name {planned before after : List Constant} {c : Constant} {init : Expr} (ty : Ty) :
      planned = before ++ c :: after → c.init = some init → init.isAggregate = false →
      FromLiterals before init → FromLiterals planned (.name ty c.symbol)
  | aggregate {planned : List Constant} (ty : Ty) {leaves : List Expr} :
      (∀ leaf ∈ leaves, FromLiterals planned leaf) → FromLiterals planned (.aggregate ty leaves)
  | binary {planned : List Constant} (ty : Ty) (op : BinaryOp) (operandTy : Ty)
      {left right : Expr} : FromLiterals planned left → FromLiterals planned right →
      FromLiterals planned (.binary ty op operandTy left right)
  | unary {planned : List Constant} (ty : Ty) (op : UnaryOp) {operand : Expr} :
      FromLiterals planned operand → FromLiterals planned (.unary ty op operand)

def Constant.FromLiterals (before : List Constant) (c : Constant) : Prop :=
  ∃ init, c.init = some init ∧ init.isAggregate = false ∧ init.FromLiterals before

def Substituted (planned : List Constant) (symbol : SymbolId) : Prop :=
  ∃ before c after, planned = before ++ c :: after ∧ c.symbol = symbol ∧ c.FromLiterals before

variable {planned : List Constant} {c : Constant} {symbol : SymbolId}

theorem Expr.fromLiterals_name_iff {ty : Ty} :
    (Expr.name ty symbol).FromLiterals planned ↔ Substituted planned symbol := by
  constructor
  · intro h
    obtain _ | ⟨_, hplanned, hinit, haggregate, hbefore⟩ := h
    exact ⟨_, _, _, hplanned, rfl, _, hinit, haggregate, hbefore⟩
  · rintro ⟨before, c, after, hplanned, rfl, init, hinit, haggregate, hbefore⟩
    exact .name ty hplanned hinit haggregate hbefore

theorem not_substituted_nil : ¬Substituted [] symbol := by
  rintro ⟨before, c, after, hplanned, -⟩
  simp at hplanned

theorem substituted_concat : Substituted (planned ++ [c]) symbol ↔
    Substituted planned symbol ∨ symbol = c.symbol ∧ c.FromLiterals planned := by
  constructor
  · rintro ⟨before, d, after, hplanned, hsymbol, hbuilt⟩
    rcases List.eq_nil_or_concat after with rfl | ⟨between, last, rfl⟩
    · obtain ⟨rfl, hlast⟩ := List.append_inj' hplanned rfl
      obtain rfl : c = d := by simpa using hlast
      exact .inr ⟨hsymbol.symm, hbuilt⟩
    · rw [List.concat_eq_append, ← List.cons_append, ← List.append_assoc] at hplanned
      exact .inl ⟨before, d, between, List.append_inj_left' hplanned rfl, hsymbol, hbuilt⟩
  · rintro (⟨before, d, after, rfl, h⟩ | ⟨rfl, hbuilt⟩)
    · exact ⟨before, d, after ++ [c], by simp, h⟩
    · exact ⟨planned, c, [], rfl, rfl, hbuilt⟩

/-- The literals are the constants among `planned` that are substituted. -/
def Classification.Substitutes (k : Classification) (planned : List Constant) : Prop :=
  ∀ symbol, k.literals.contains symbol = true ↔ Substituted planned symbol

namespace Expr

variable {k : Classification}

mutual
theorem isLiteral_iff_fromLiterals (hk : k.Substitutes planned) :
    (e : Expr) → (e.isLiteral k.literals = true ↔ e.FromLiterals planned)
  | .literal ty value => iff_of_true (by rw [isLiteral]) (.literal ty value)
  | .name ty symbol => by
      rw [isLiteral, fromLiterals_name_iff]
      exact hk symbol
  | .aggregate ty leaves => by
      rw [isLiteral, allLiteral_iff_fromLiterals hk leaves]
      refine ⟨.aggregate ty, fun h => ?_⟩
      cases h with
      | aggregate _ hleaves => exact hleaves
  | .binary ty op operandTy left right => by
      rw [isLiteral, Bool.and_eq_true, isLiteral_iff_fromLiterals hk left,
        isLiteral_iff_fromLiterals hk right]
      refine ⟨fun both => .binary ty op operandTy both.1 both.2, fun h => ?_⟩
      cases h with
      | binary _ _ _ hleft hright => exact ⟨hleft, hright⟩
  | .unary ty op operand => by
      rw [isLiteral, isLiteral_iff_fromLiterals hk operand]
      refine ⟨.unary ty op, fun h => ?_⟩
      cases h with
      | unary _ _ hoperand => exact hoperand
  | .index .. | .member .. | .call .. | .size .. | .unresolved _ =>
      iff_of_false (by simp [isLiteral]) fun h => by cases h

theorem allLiteral_iff_fromLiterals (hk : k.Substitutes planned) : (leaves : List Expr) →
    (allLiteral k.literals leaves = true ↔ ∀ leaf ∈ leaves, leaf.FromLiterals planned)
  | [] => by simp [allLiteral]
  | e :: es => by
      rw [allLiteral, Bool.and_eq_true, isLiteral_iff_fromLiterals hk e,
        allLiteral_iff_fromLiterals hk es, List.forall_mem_cons]
end

end Expr

namespace Emission

variable {ctx : ModuleContext} {u v : EmissionState}

/-- The survey enters a constant whose initializer is built from literals, and no other. -/
theorem Surveys.substitutes (h : Surveys ctx c u v) (hu : u.tables.known.Substitutes planned) :
    v.tables.known.Substitutes (planned ++ [c]) := by
  intro symbol
  rw [substituted_concat, ← hu symbol]
  have entered {init : Expr} (hinit : c.init = some init) (haggregate : init.isAggregate = false)
      (hliteral : init.isLiteral u.tables.known.literals = true) (text : String)
      (value : Option Value) :
      (u.tables.known.addLiteral c.symbol text value).literals.contains symbol = true ↔
        u.tables.known.literals.contains symbol = true ∨
          symbol = c.symbol ∧ c.FromLiterals planned := by
    have built : c.FromLiterals planned :=
      ⟨init, hinit, haggregate, (Expr.isLiteral_iff_fromLiterals hu init).mp hliteral⟩
    simp only [Classification.addLiteral, Table.contains_insert, Bool.or_eq_true,
      decide_eq_true_eq]
    rw [and_iff_left built, or_comm]
  have passed {init : Expr} (hinit : c.init = some init)
      (hother : (!init.isAggregate && init.isLiteral u.tables.known.literals) = false) :
      ¬c.FromLiterals planned := by
    rintro ⟨init', hinit', haggregate, hbuilt⟩
    obtain rfl := Option.some.inj (hinit.symm.trans hinit')
    rw [haggregate, (Expr.isLiteral_iff_fromLiterals hu init).mpr hbuilt] at hother
    cases hother
  cases h with
  | bare hinit => simp [Constant.FromLiterals, hinit]
  | folded hinit haggregate hliteral _ => exact entered hinit haggregate hliteral _ _
  | verbatim hinit haggregate hliteral _ _ => exact entered hinit haggregate hliteral _ _
  | calling hinit hother | waiting hinit hother =>
      exact (or_iff_left fun found => passed hinit hother found.2).symm

theorem substitutes_of_surveyConstants {cs : List Constant}
    (hrun : surveyConstants cs ctx u = (.ok (), v)) (hu : u.tables.known.Substitutes planned) :
    v.tables.known.Substitutes (planned ++ cs) := by
  induction cs generalizing u planned with
  | nil =>
      cases hrun
      rwa [List.append_nil]
  | cons c rest ih =>
      obtain ⟨w, hc, hrest⟩ := surveyConstants_cons_ok hrun
      have all := ih hrest (hc.substitutes hu)
      rwa [List.append_assoc] at all

theorem substitutes_of_constantList {m : Module} {before : List Constant} {start : EmissionState}
    {lowered : List LoweredConstant} (hheading : heading m ctx u = (.ok (), start))
    (hlist : constantList before ctx start = (.ok lowered, v))
    (hu : u.tables.known.Substitutes planned) :
    v.tables.known.Substitutes (planned ++ m.constants) := by
  obtain ⟨surveyed, hsurvey, hstart⟩ := heading_surveys hheading
  have all := substitutes_of_surveyConstants hsurvey hu
  have kept := ((literals_frame.within_constantList before).done hlist).1
  rw [hstart] at kept
  intro symbol
  rw [kept]
  exact all symbol

end Emission

end ColorLowering
