import ColorLowering.Proofs.Constants.Callees
import ColorLowering.Proofs.Folding.Machine
import ColorLowering.Proofs.Folding.Operators
import ColorLowering.Proofs.Reading.Types
import ColorLowering.Proofs.Reading.Values

/-!
# What the text of a constant expression computes

An expression over literals of whole types is rendered with a conversion for every operand of
another type than its operator, and nothing else. What the text computes therefore follows the
expression.
-/
namespace ColorLowering

open Cpp

namespace Cpp

/-- The number of a literal; the smallest signed number is the negation of a `long`. -/
def Number.ofLiteral (s : Scalar) (n : Int) : Number :=
  if s = .bool then ⟨.bool, n⟩
  else if -2 ^ 31 < n ∧ n < 2 ^ 31 then ⟨.int, n⟩
  else ⟨.long, n⟩

def Number.as (s : Scalar) (given : Ty) (x : Number) : Number :=
  if given.scalar? = some s then x else x.cast (IntType.ofScalar s)

theorem Number.as_same (s : Scalar) : Number.as s (.scalar s) = id := by
  funext x
  exact if_pos rfl

theorem Number.as_other {s given : Scalar} (h : s ≠ given) :
    Number.as s (.scalar given) = Number.cast (IntType.ofScalar s) := by
  funext x
  exact if_neg fun hsame => h (Option.some.inj hsame).symm

/-- The text is an operand, and computes the number if there is one. -/
def Computes (text : String) (x? : Option Number) : Prop :=
  ∃ tree, ReadsAs text tree ∧ tree.compute = x?

namespace Computes

variable {text : String} {x? : Option Number}

theorem compute? (h : Computes text x?) : Cpp.compute? text = x? := by
  obtain ⟨tree, hread, hcompute⟩ := h
  rw [Cpp.compute?, hread.read, Option.bind_some, hcompute]

theorem unary (h : Computes text x?) (op : UnaryOp) :
    Computes (unaryText op.token text) (x?.bind (Number.unary? op)) := by
  obtain ⟨tree, hread, rfl⟩ := h
  exact ⟨_, hread.unary op, rfl⟩

theorem binary {l r : String} {x? y? : Option Number} (hl : Computes l x?) (hr : Computes r y?)
    (op : BinaryOp) :
    Computes ("(" ++ l ++ " " ++ op.token ++ " " ++ r ++ ")") (Number.binary? op x? y?) := by
  obtain ⟨left, hleft, rfl⟩ := hl
  obtain ⟨right, hright, rfl⟩ := hr
  exact ⟨_, (hleft.binary hright op).readsAs, rfl⟩

theorem cast (h : Computes text x?) (t : Target) {s : Scalar} (hs : s.isWhole) (given : Scalar) :
    Computes (t.cast (.scalar s) (.scalar given) text)
      (x?.map (Number.as s (.scalar given))) := by
  obtain ⟨tree, hread, rfl⟩ := h
  refine ⟨_, hread.cast t (.scalar s) (.scalar given), ?_⟩
  by_cases hsame : s = given
  · subst hsame
    simp [Target.castTree, Ty.scalar?, Number.as_same]
  · have type : IntType.ofTokens? (t.scalarTokens s) = some (IntType.ofScalar s) := by
      cases s with
      | bool | int | uint => rfl
      | half | float => cases hs
    have tree_cast : t.conversionTree s tree = .cast (t.scalarTokens s) tree := by
      cases s with
      | half => cases hs
      | _ => rfl
    simp only [Target.castTree, Ty.scalar?, if_neg hsame, tree_cast, Tree.compute, type,
      Number.as_other hsame]
    cases tree.compute <;> rfl

theorem literal {v : Value} {s : Scalar} {n : Int} (hv : v.Whole s n) :
    Computes v.text (some (Number.ofLiteral s n)) := by
  refine ⟨_, readsAs_value v, ?_⟩
  cases hv with
  | bool b => cases b <;> rfl
  | int i =>
      have lower := i.le_toInt
      have upper := i.toInt_lt
      simp only [Value.tree, signed, Number.ofLiteral]
      by_cases hnegative : i.toInt < 0
      · rw [decide_eq_true hnegative, if_pos rfl]
        have digits : (i.toInt.natAbs : Int) = -i.toInt := by omega
        simp only [Tree.compute, Number.literal?_toString, Number.decimal?]
        by_cases hsmall : -2 ^ 31 < i.toInt
        · have fits : IntType.int.holds i.toInt := IntType.holds_int.mpr (by omega)
          rw [if_pos (by omega), if_neg (by decide), if_pos ⟨hsmall, by omega⟩, Option.bind_some,
            Number.unary?, digits, Int.neg_neg]
          exact IntType.result?_of_holds fits
        · have fits : IntType.long.holds i.toInt := IntType.holds_long.mpr (by omega)
          rw [if_neg (by omega), if_pos (by omega), if_neg (by decide), if_neg (by omega),
            Option.bind_some, Number.unary?, digits, Int.neg_neg]
          exact IntType.result?_of_holds fits
      · have digits : (i.toInt.natAbs : Int) = i.toInt := by omega
        rw [decide_eq_false hnegative, if_neg Bool.false_ne_true]
        simp only [Tree.compute, Number.literal?_toString, Number.decimal?]
        rw [if_pos (by omega), if_neg (by decide), if_pos (by omega), digits]
  | uint u =>
      have upper := u.toNat_lt
      simp only [Value.tree, Tree.compute, Number.literal?_toString, Number.decimal?,
        Number.ofLiteral]
      by_cases hsmall : u.toNat < 2 ^ 31
      · rw [if_pos hsmall, if_neg (by decide), if_pos (by omega)]
      · rw [if_neg hsmall, if_pos (by omega), if_neg (by decide), if_neg (by omega)]

end Computes

end Cpp

namespace Expr

/-- The expression has the type `s` and is built from literals of whole types and operators. -/
inductive WholeConstant : Expr → Scalar → Prop
  | literal {v : Value} {s : Scalar} {n : Int} : v.Whole s n →
      WholeConstant (.literal (.scalar s) (.scalar v)) s
  | unary {op : UnaryOp} {operand : Expr} {s t : Scalar} : WholeConstant operand t → s.isWhole →
      WholeConstant (.unary (.scalar s) op operand) s
  | binary {op : BinaryOp} {left right : Expr} {s t u r : Scalar} : WholeConstant left t →
      WholeConstant right u → s.isWhole → op.yields s = r →
      WholeConstant (.binary (.scalar r) op (.scalar s) left right) r

def computed? : Expr → Option Number
  | .literal (.scalar s) (.scalar v) => v.whole?.map (Number.ofLiteral s)
  | .unary (.scalar s) op operand =>
    (operand.computed?.map (·.as s operand.ty)).bind (Number.unary? op)
  | .binary _ op (.scalar s) left right =>
    Number.binary? op (left.computed?.map (·.as s left.ty)) (right.computed?.map (·.as s right.ty))
  | _ => none

def operands : Expr → List Expr
  | .unary _ _ operand => [operand]
  | .binary _ _ _ left right => [left, right]
  | _ => []

/-- Wherever the expression is rendered, its text computes `x?`. -/
def TextComputes (e : Expr) (x? : Option Number) : Prop :=
  ∀ scope texts, ∃ text, e.render scope texts = (.ok text, texts) ∧ Cpp.compute? text = x?

namespace WholeConstant

variable {e : Expr} {s : Scalar}

theorem ty (h : e.WholeConstant s) : e.ty = .scalar s := by cases h <;> rfl

theorem part {d : Expr} (h : e.WholeConstant s) (hpart : Part d e) : ∃ t, d.WholeConstant t := by
  induction h with
  | literal hv =>
      cases hpart with
      | self => exact ⟨_, .literal hv⟩
  | unary hoperand hs ih =>
      cases hpart with
      | self => exact ⟨_, .unary hoperand hs⟩
      | operand hpart => exact ih hpart
  | binary hleft hright hs hr ihl ihr =>
      cases hpart with
      | self => exact ⟨_, .binary hleft hright hs hr⟩
      | left hpart => exact ihl hpart
      | right hpart => exact ihr hpart

theorem part_iff {d : Expr} (h : e.WholeConstant s) :
    Part d e ↔ d = e ∨ ∃ operand ∈ e.operands, Part d operand := by
  constructor
  · intro hpart
    cases hpart with
    | self => exact .inl rfl
    | left hpart => exact .inr ⟨_, by simp [operands], hpart⟩
    | right hpart => exact .inr ⟨_, by simp [operands], hpart⟩
    | operand hpart => exact .inr ⟨_, by simp [operands], hpart⟩
    | _ => cases h
  · rintro (rfl | ⟨operand, hoperand, hpart⟩)
    · exact .self
    · cases h with
      | literal => cases hoperand
      | unary =>
          cases List.mem_singleton.mp hoperand
          exact .operand hpart
      | binary =>
          rcases List.mem_pair.mp hoperand with rfl | rfl
          · exact .left hpart
          · exact .right hpart

theorem rendered (h : e.WholeConstant s) (scope : Scope) (texts : DefaultTexts) :
    ∃ text, e.render scope texts = (.ok text, texts) ∧ Computes text e.computed? := by
  induction h with
  | literal hv =>
      refine ⟨_, rfl, ?_⟩
      rw [computed?, hv.whole?]
      exact .literal hv
  | @unary op operand s t hoperand hs ih =>
      obtain ⟨text, hrender, hcomputes⟩ := ih
      refine ⟨unaryText op.token (scope.target.cast (.scalar s) operand.ty text), ?_, ?_⟩
      · rw [render]
        exact Rendering.bind_eq_ok.mpr ⟨_, _, hrender, rfl⟩
      · rw [computed?, hoperand.ty]
        exact (hcomputes.cast scope.target hs t).unary op
  | @binary op left right s t u r hleft hright hs hr ihl ihr =>
      obtain ⟨l, hl, hlcomputes⟩ := ihl
      obtain ⟨r, hr, hrcomputes⟩ := ihr
      refine ⟨"(" ++ scope.target.cast (.scalar s) left.ty l ++ " " ++ op.token ++ " " ++
        scope.target.cast (.scalar s) right.ty r ++ ")", ?_, ?_⟩
      · rw [render]
        exact Rendering.bind_eq_ok.mpr ⟨_, _, hl, Rendering.bind_eq_ok.mpr ⟨_, _, rfl,
          Rendering.bind_eq_ok.mpr ⟨_, _, hr, rfl⟩⟩⟩
      · rw [computed?, hleft.ty, hright.ty]
        exact (hlcomputes.cast scope.target hs t).binary (hrcomputes.cast scope.target hs u) op

theorem textComputes_iff (h : e.WholeConstant s) {x? : Option Number} :
    e.TextComputes x? ↔ e.computed? = x? := by
  constructor
  · intro htext
    let scope : Scope := ⟨⟨#[], #[]⟩, ⟨.modern, .single, "Imath"⟩, ⟨0⟩, .empty, false⟩
    obtain ⟨text, hrender, hcompute⟩ := htext scope .empty
    obtain ⟨text', hrender', hcomputes⟩ := h.rendered scope .empty
    rw [hrender] at hrender'
    cases hrender'
    exact hcomputes.compute?.symm.trans hcompute
  · rintro rfl scope texts
    obtain ⟨text, hrender, hcomputes⟩ := h.rendered scope texts
    exact ⟨text, hrender, hcomputes.compute?⟩

end WholeConstant
end Expr
end ColorLowering
