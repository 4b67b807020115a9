import ColorLowering.Expr.Value
import ColorLowering.Proofs.Folding.Computed
import ColorLowering.Proofs.Folding.Steps

/-!
# Folding and the text it replaces

A constant expression has a value, and it has a text that the machine computes. They are compared
part by part. Where the operands of an operator are computed exactly, the text of the whole agrees
with the value unless it shifts a negative number to the left or takes an unsigned sum, product or
shift beyond what an `int` holds; and a part is computed exactly unless, further, it is an unsigned
complement in a signed type or an unsigned shift in a `long` that drops bits of the value. Signed
numbers and truth values that are not shifted to the left are always computed exactly.
-/
namespace ColorLowering

open Cpp

namespace Cpp.Number

variable {x : Number} {s t : Scalar} {a b n : Int}

theorem is_ofLiteral {v : Value} (hv : v.Whole s n) : (ofLiteral s n).Is s n := by
  have held := hv.holds
  have bounds := held
  cases hv with
  | bool b => exact is_truth b
  | int | uint =>
      simp only [Scalar.holds, decide_eq_true_eq] at bounds
      rw [ofLiteral, if_neg (by decide)]
      split
      · exact ⟨rfl, rfl, IntType.holds_int.mpr (by omega), held⟩
      · exact ⟨rfl, rfl, IntType.holds_long.mpr (by omega), held⟩

theorem Is.as (hx : x.Is t a) (hs : s.isWhole) (hb : s.number? a = some b) :
    (x.as s (.scalar t)).Is s b := by
  by_cases hsame : s = t
  · subst hsame
    obtain ⟨v, hv⟩ := exists_whole hx.holds
    obtain rfl : a = b := Option.some.inj (hv.number?.symm.trans hb)
    rwa [as_same]
  · rw [as_other hsame]
    exact hx.convert hs hb

end Cpp.Number

namespace Expr

def number? : Expr → Option Int
  | .literal _ (.scalar v) => v.whole?
  | .unary (.scalar s) op operand => do
    let a ← s.number? (← operand.number?)
    op.number? s a
  | .binary _ op (.scalar s) left right => do
    let a ← s.number? (← left.number?)
    let b ← s.number? (← right.number?)
    op.number? s a b
  | _ => none

/-- The exact number of a constant expression, in the type in which the machine has it, if every
part of the expression is computed exactly. -/
def exactNumber? : Expr → Option Number
  | .literal (.scalar s) (.scalar v) => v.whole?.map (Number.ofLiteral s)
  | .unary (.scalar s) op operand => do
    let x := (← operand.exactNumber?).as s operand.ty
    let n ← op.number? s x.value
    if op.isExact s x.ty then some ⟨op.machineType x.ty, n⟩ else none
  | .binary _ op (.scalar s) left right => do
    let x := (← left.exactNumber?).as s left.ty
    let y := (← right.exactNumber?).as s right.ty
    let n ← op.number? s x.value y.value
    let t := op.machineType x.ty y.ty
    if op.isExact s t x.value y.value then some ⟨t, n⟩ else none
  | _ => none

/-- Whether the operands are computed exactly and the operator is defined on what they are. -/
def agrees : Expr → Bool
  | .literal .. => true
  | .unary _ _ operand => operand.exactNumber?.isSome
  | .binary _ op (.scalar s) left right =>
    left.exactNumber?.any fun x => right.exactNumber?.any fun y =>
      let x := x.as s left.ty
      let y := y.as s right.ty
      op.isDefined s (op.machineType x.ty y.ty) x.value y.value
  | _ => false

/-- Whether the expression has no unsigned part and shifts nothing to the left. -/
def isSigned : Expr → Bool
  | .literal ty _ => ty.scalar? ≠ some .uint
  | .unary ty _ operand => ty.scalar? ≠ some .uint && operand.isSigned
  | .binary _ op operandTy left right =>
    operandTy.scalar? ≠ some .uint && op ≠ .shl && left.isSigned && right.isSigned
  | _ => false

/-- What the machine makes of an expression with the exact number `n`, and whether it is that. -/
def Outcome (e : Expr) (s : Scalar) (n : Int) (isExact : Bool) : Prop :=
  ∃ t, Gives e.computed? t s n e.agrees isExact ∧
    e.exactNumber? = if isExact then some ⟨t, n⟩ else none

/-- The number of the expression is computed, whatever the type in which the machine has it. -/
def IsComputed (e : Expr) : Prop := ∃ x, e.computed? = some x ∧ e.number? = some x.value

/-- Every part of the expression has a value, and its text computes that number unconverted. -/
def PartsComputed (p : Precision) (k : Table SymbolId Value) (e : Expr) : Prop :=
  ∀ d, Part d e → ∃ x v s, d.TextComputes (some x) ∧ d.value? p k = some v ∧ v.Whole s x.value

theorem number?_unary_eq_some {s : Scalar} {op : UnaryOp} {operand : Expr} {n : Int} :
    (unary (.scalar s) op operand).number? = some n ↔
      ∃ a, operand.number? = some a ∧ ∃ b, s.number? a = some b ∧ op.number? s b = some n := by
  simp only [number?, Option.bind_eq_bind, Option.bind_eq_some_iff]

theorem number?_binary_eq_some {ty : Ty} {s : Scalar} {op : BinaryOp} {left right : Expr}
    {n : Int} :
    (binary ty op (.scalar s) left right).number? = some n ↔
      ∃ a, left.number? = some a ∧ ∃ a', s.number? a = some a' ∧
        ∃ b, right.number? = some b ∧ ∃ b', s.number? b = some b' ∧
          op.number? s a' b' = some n := by
  simp only [number?, Option.bind_eq_bind, Option.bind_eq_some_iff]

namespace WholeConstant

variable {e : Expr} {s : Scalar} {p : Precision} {k : Table SymbolId Value} {v : Value}

/-- The value of a constant expression is its exact number, and it has one if it has the other. -/
theorem sameNumber (h : e.WholeConstant s) (p : Precision) (k : Table SymbolId Value) :
    SameNumber s (e.value? p k) e.number? := by
  induction h with
  | literal hv =>
      rw [value?, number?, hv.whole?]
      exact .some hv
  | @unary op operand s t hoperand hs ih =>
      exact ih.bind fun v a hv => (hv.convert? p hs).bind fun w b hw => hw.unary? op
  | @binary op left right s t u r hleft hright hs hr ihl ihr =>
      subst hr
      refine ihl.bind fun v a hv => (hv.convert? p hs).bind fun v' a' hv' => ?_
      refine ihr.bind fun w b hw => (hw.convert? p hs).bind fun w' b' hw' => ?_
      exact (hv'.binary? hw' p op).convertBack p

theorem number_of_value? (h : e.WholeConstant s) (hv : e.value? p k = some v) :
    ∃ n, e.number? = some n ∧ v.Whole s n := by
  have same := h.sameNumber p k
  rw [hv] at same
  generalize e.number? = n at same
  cases same with
  | some hwhole => exact ⟨_, rfl, hwhole⟩

theorem value_of_number? {n : Int} (h : e.WholeConstant s) (hn : e.number? = some n)
    (p : Precision) (k : Table SymbolId Value) : ∃ v, e.value? p k = some v ∧ v.Whole s n := by
  have same := h.sameNumber p k
  rw [hn] at same
  exact same.exists_of_some

end WholeConstant

namespace Outcome

variable {e : Expr} {s : Scalar} {n : Int} {x : Number} {isExact : Bool}

theorem exact_iff (h : e.Outcome s n isExact) :
    e.exactNumber? = some x ↔ e.computed? = some x ∧ x.value = n := by
  obtain ⟨t, gives, hexact⟩ := h
  have exactly_iff := gives.exact_iff
  rw [hexact, Option.ite_none_right_eq_some, ← exactly_iff]
  constructor
  · rintro ⟨hcomputed, hx⟩
    cases hx
    exact ⟨hcomputed, rfl⟩
  · rintro ⟨hcomputed, rfl⟩
    -- the type of what is computed is always the one of the exact number
    have same : x = ⟨t, x.value⟩ := by
      cases hdefined : e.agrees with
      | false => cases (gives.undefined hdefined).symm.trans hcomputed
      | true =>
          obtain ⟨m, hm, -⟩ := gives.converted hdefined
          cases hm.symm.trans hcomputed
          rfl
    exact ⟨hcomputed.trans (congrArg some same), congrArg some same.symm⟩

theorem isNumber (h : e.Outcome s n isExact) (hx : e.exactNumber? = some x) : x.Is s n := by
  obtain ⟨t, gives, hexact⟩ := h
  rw [hexact, Option.ite_none_right_eq_some] at hx
  obtain ⟨hisExact, hx⟩ := hx
  cases hx
  exact gives.isNumber hisExact

theorem isSome (h : e.Outcome s n true) : e.exactNumber?.isSome := by
  obtain ⟨t, -, hexact⟩ := h
  rw [hexact, if_pos rfl]
  rfl

/-- The text agrees exactly if anything is computed from it. -/
theorem agrees_iff (h : e.Outcome s n isExact) :
    (∃ x, e.computed? = some x ∧ (IntType.ofScalar s).convert x.value = n) ↔ e.agrees := by
  obtain ⟨t, gives, -⟩ := h
  constructor
  · rintro ⟨x, hx, -⟩
    by_contra hdiffers
    cases (gives.undefined (Bool.eq_false_of_not_eq_true hdiffers)).symm.trans hx
  · intro hagrees
    obtain ⟨m, hm, hconverted⟩ := gives.converted hagrees
    exact ⟨⟨t, m⟩, hm, hconverted⟩

end Outcome

namespace WholeConstant

variable {e : Expr} {s t u : Scalar} {n : Int} {isExact isExact' : Bool}

theorem outcome_unary {op : UnaryOp} {operand : Expr} {x : Number} {a b : Int}
    (hoperand : operand.WholeConstant t) (outcome : operand.Outcome t a isExact)
    (hx : operand.exactNumber? = some x) (hs : s.isWhole) (hb : s.number? a = some b)
    (hn : op.number? s b = some n) :
    (Expr.unary (.scalar s) op operand).Outcome s n (op.isExact s (x.as s (.scalar t)).ty) := by
  have his := (outcome.isNumber hx).as hs hb
  have hcomputed := (outcome.exact_iff.mp hx).1
  have gives := Number.gives_unary his op hn
  refine ⟨op.machineType (x.as s (.scalar t)).ty, ?_, ?_⟩
  · rwa [computed?, agrees, hcomputed, hx, hoperand.ty]
  · rw [exactNumber?, hx, hoperand.ty]
    simp only [Option.bind_eq_bind, Option.bind_some, his.value, hn]

theorem outcome_binary {op : BinaryOp} {left right : Expr} {x y : Number} {a b a' b' : Int}
    (ty : Ty) (hleft : left.WholeConstant t) (hright : right.WholeConstant u)
    (outcomeLeft : left.Outcome t a isExact) (outcomeRight : right.Outcome u b isExact')
    (hx : left.exactNumber? = some x) (hy : right.exactNumber? = some y) (hs : s.isWhole)
    (ha : s.number? a = some a') (hb : s.number? b = some b')
    (hn : op.number? s a' b' = some n) :
    (Expr.binary ty op (.scalar s) left right).Outcome (op.yields s) n
      (op.isExact s (op.machineType (x.as s (.scalar t)).ty (y.as s (.scalar u)).ty) a' b') := by
  have hisLeft := (outcomeLeft.isNumber hx).as hs ha
  have hisRight := (outcomeRight.isNumber hy).as hs hb
  have hcomputedLeft := (outcomeLeft.exact_iff.mp hx).1
  have hcomputedRight := (outcomeRight.exact_iff.mp hy).1
  have gives := Number.gives_binary hisLeft hisRight op hn
  refine ⟨op.machineType (x.as s (.scalar t)).ty (y.as s (.scalar u)).ty, ?_, ?_⟩
  · simp only [computed?, agrees, hcomputedLeft, hcomputedRight, hx, hy, hleft.ty, hright.ty,
      Option.map_some, Option.any_some, hisLeft.value, hisRight.value]
    exact gives
  · simp only [exactNumber?, hx, hy, hleft.ty, hright.ty, Option.bind_eq_bind, Option.bind_some,
      hisLeft.value, hisRight.value, hn]

theorem exact_operands (h : e.WholeConstant s) (hx : e.exactNumber?.isSome) :
    ∀ operand ∈ e.operands, operand.exactNumber?.isSome := by
  obtain ⟨x, hx⟩ := Option.isSome_iff_exists.mp hx
  cases h with
  | literal => exact nofun
  | unary =>
      simp only [exactNumber?, Option.bind_eq_bind, Option.bind_eq_some_iff] at hx
      obtain ⟨y, hy, -⟩ := hx
      simp [operands, hy]
  | binary =>
      simp only [exactNumber?, Option.bind_eq_bind, Option.bind_eq_some_iff] at hx
      obtain ⟨y, hy, z, hz, -⟩ := hx
      simp [operands, hy, hz]

theorem agrees_operands (h : e.WholeConstant s) (hagrees : e.agrees) :
    ∀ operand ∈ e.operands, operand.exactNumber?.isSome := by
  cases h with
  | literal => exact nofun
  | unary => simpa [operands, agrees] using hagrees
  | binary =>
      simp only [agrees, Option.any_eq_true] at hagrees
      obtain ⟨y, hy, z, hz, -⟩ := hagrees
      simp [operands, hy, hz]

theorem outcome_literal {v : Value} (hv : v.Whole s n) :
    (Expr.literal (.scalar s) (.scalar v)).Outcome s n true := by
  have his := Number.is_ofLiteral hv
  have number : Number.ofLiteral s n = ⟨(Number.ofLiteral s n).ty, n⟩ :=
    congrArg (Number.mk _) his.value
  refine ⟨(Number.ofLiteral s n).ty, .exactly ?_ (number ▸ his) rfl rfl, ?_⟩
  · rw [computed?, hv.whole?]
    exact congrArg some number
  · rw [exactNumber?, hv.whole?]
    exact congrArg some number

theorem outcome (h : e.WholeConstant s) (hn : e.number? = some n)
    (hoperands : ∀ operand ∈ e.operands, operand.exactNumber?.isSome) :
    ∃ isExact, e.Outcome s n isExact := by
  induction h generalizing n with
  | @literal v s m hv =>
      obtain rfl : m = n := Option.some.inj (hv.whole?.symm.trans hn)
      exact ⟨true, outcome_literal hv⟩
  | @unary op operand s t hoperand hs ih =>
      have isExact := hoperands operand (by simp [operands])
      obtain ⟨x, hx⟩ := Option.isSome_iff_exists.mp isExact
      obtain ⟨a, ha, b, hb, hn⟩ := number?_unary_eq_some.mp hn
      obtain ⟨_, outcome⟩ := ih ha (hoperand.exact_operands isExact)
      exact ⟨_, outcome_unary hoperand outcome hx hs hb hn⟩
  | @binary op left right s t u r hleft hright hs hr ihl ihr =>
      subst hr
      have isExactLeft := hoperands left (by simp [operands])
      have isExactRight := hoperands right (by simp [operands])
      obtain ⟨x, hx⟩ := Option.isSome_iff_exists.mp isExactLeft
      obtain ⟨y, hy⟩ := Option.isSome_iff_exists.mp isExactRight
      obtain ⟨a, ha, a', ha', b, hb, b', hb', hn⟩ := number?_binary_eq_some.mp hn
      obtain ⟨_, outcomeLeft⟩ := ihl ha (hleft.exact_operands isExactLeft)
      obtain ⟨_, outcomeRight⟩ := ihr hb (hright.exact_operands isExactRight)
      exact ⟨_, outcome_binary _ hleft hright outcomeLeft outcomeRight hx hy hs ha' hb' hn⟩

/-- Signed numbers and truth values are computed exactly, all but shifts to the left. -/
theorem exact_of_isSigned (h : e.WholeConstant s) (hn : e.number? = some n) (hsigned : e.isSigned) :
    e.exactNumber?.isSome := by
  induction h generalizing n with
  | literal hv => exact (outcome_literal hv).isSome
  | @unary op operand s t hoperand hs ih =>
      rw [isSigned, Bool.and_eq_true, decide_eq_true_eq] at hsigned
      obtain ⟨hs', hsigned⟩ := hsigned
      obtain ⟨a, ha, b, hb, hn⟩ := number?_unary_eq_some.mp hn
      have isExact := ih ha hsigned
      obtain ⟨x, hx⟩ := Option.isSome_iff_exists.mp isExact
      obtain ⟨_, outcome⟩ := hoperand.outcome ha (hoperand.exact_operands isExact)
      have whole := outcome_unary hoperand outcome hx hs hb hn
      rw [UnaryOp.isExact_of_ne_uint fun h => hs' (congrArg some h)] at whole
      exact whole.isSome
  | @binary op left right s t u r hleft hright hs hr ihl ihr =>
      simp only [isSigned, Bool.and_eq_true, decide_eq_true_eq] at hsigned
      obtain ⟨⟨⟨hs', hop⟩, hsignedLeft⟩, hsignedRight⟩ := hsigned
      obtain ⟨a, ha, a', ha', b, hb, b', hb', hn⟩ := number?_binary_eq_some.mp hn
      have isExactLeft := ihl ha hsignedLeft
      have isExactRight := ihr hb hsignedRight
      obtain ⟨x, hx⟩ := Option.isSome_iff_exists.mp isExactLeft
      obtain ⟨y, hy⟩ := Option.isSome_iff_exists.mp isExactRight
      obtain ⟨_, outcomeLeft⟩ := hleft.outcome ha (hleft.exact_operands isExactLeft)
      obtain ⟨_, outcomeRight⟩ := hright.outcome hb (hright.exact_operands isExactRight)
      have whole :=
        outcome_binary (.scalar r) hleft hright outcomeLeft outcomeRight hx hy hs ha' hb' hn
      rw [BinaryOp.isExact_of_ne_uint (fun h => hs' (congrArg some h)) hop] at whole
      exact whole.isSome

theorem isComputed_iff (h : e.WholeConstant s) (hn : e.number? = some n)
    (hoperands : ∀ operand ∈ e.operands, operand.exactNumber?.isSome) :
    e.IsComputed ↔ e.exactNumber?.isSome := by
  obtain ⟨_, outcome⟩ := h.outcome hn hoperands
  rw [Option.isSome_iff_exists]
  refine exists_congr fun x => ?_
  rw [outcome.exact_iff, hn, Option.some.injEq, @eq_comm _ n]

/-- The step from the operands to the expression, which is the same for every constructor. -/
theorem parts_iff_of_operands (h : e.WholeConstant s) (hn : e.number? = some n)
    (ih : ∀ operand ∈ e.operands,
      (∀ d, Part d operand → d.IsComputed) ↔ operand.exactNumber?.isSome) :
    (∀ d, Part d e → d.IsComputed) ↔ e.exactNumber?.isSome := by
  constructor
  · intro hparts
    refine (h.isComputed_iff hn fun operand hoperand => ?_).mp (hparts e .self)
    exact (ih operand hoperand).mp fun d hd => hparts d (h.part_iff.mpr (.inr ⟨_, hoperand, hd⟩))
  · intro hx d hd
    have hoperands := h.exact_operands hx
    rcases h.part_iff.mp hd with rfl | ⟨operand, hoperand, hpart⟩
    · exact (h.isComputed_iff hn hoperands).mpr hx
    · exact (ih operand hoperand).mpr (hoperands operand hoperand) d hpart

theorem parts_iff_exact (h : e.WholeConstant s) (hn : e.number? = some n) :
    (∀ d, Part d e → d.IsComputed) ↔ e.exactNumber?.isSome := by
  induction h generalizing n with
  | literal hv => exact parts_iff_of_operands (.literal hv) hn nofun
  | @unary op operand s t hoperand hs ih =>
      obtain ⟨a, ha, -⟩ := number?_unary_eq_some.mp hn
      refine parts_iff_of_operands (.unary hoperand hs) hn fun operand' hmem => ?_
      cases List.mem_singleton.mp hmem
      exact ih ha
  | @binary op left right s t u r hleft hright hs hr ihl ihr =>
      obtain ⟨a, ha, -, -, b, hb, -⟩ := number?_binary_eq_some.mp hn
      refine parts_iff_of_operands (.binary hleft hright hs hr) hn fun operand hmem => ?_
      rcases List.mem_pair.mp hmem with rfl | rfl
      · exact ihl ha
      · exact ihr hb

theorem operand {operand : Expr} (h : e.WholeConstant s) (hn : e.number? = some n)
    (hoperand : operand ∈ e.operands) :
    ∃ t m, operand.WholeConstant t ∧ operand.number? = some m := by
  cases h with
  | literal => cases hoperand
  | unary hwhole =>
      obtain ⟨a, ha, -⟩ := number?_unary_eq_some.mp hn
      cases List.mem_singleton.mp hoperand
      exact ⟨_, a, hwhole, ha⟩
  | binary hleft hright =>
      obtain ⟨a, ha, -, -, b, hb, -⟩ := number?_binary_eq_some.mp hn
      rcases List.mem_pair.mp hoperand with rfl | rfl
      · exact ⟨_, a, hleft, ha⟩
      · exact ⟨_, b, hright, hb⟩

theorem partsComputed_iff (h : e.WholeConstant s) {p : Precision} {k : Table SymbolId Value} :
    e.PartsComputed p k ↔ ∀ d, Part d e → d.IsComputed := by
  refine forall₂_congr fun d hd => ?_
  obtain ⟨t, hpart⟩ := h.part hd
  constructor
  · rintro ⟨x, v, s, hcomputes, hv, hwhole⟩
    obtain ⟨n, hn, hwhole'⟩ := hpart.number_of_value? hv
    have same : n = x.value := Option.some.inj (hwhole'.whole?.symm.trans hwhole.whole?)
    exact ⟨x, hpart.textComputes_iff.mp hcomputes, same ▸ hn⟩
  · rintro ⟨x, hcomputed, hn⟩
    obtain ⟨v, hv, hwhole⟩ := hpart.value_of_number? hn p k
    exact ⟨x, v, t, hpart.textComputes_iff.mpr hcomputed, hv, hwhole⟩

end WholeConstant

/-- Where the operands are computed exactly down to their parts, the text of the expression is
defined and converts to its value exactly if it shifts no negative number to the left and takes no
unsigned sum, product or shift in an `int` that does not hold it. Without unsigned numbers and
shifts to the left this is always so. -/
theorem text_agrees_iff {e : Expr} {s : Scalar} {v : Value} {p : Precision}
    {k : Table SymbolId Value} (h : e.WholeConstant s) (hv : e.value? p k = some v) :
    (((∃ x, e.TextComputes (some x) ∧ v.Whole s ((IntType.ofScalar s).convert x.value)) ∧
      ∀ operand ∈ e.operands, operand.PartsComputed p k) ↔ e.agrees) ∧
    (e.isSigned → e.agrees) := by
  obtain ⟨n, hn, hwhole⟩ := h.number_of_value? hv
  have operands_iff : (∀ operand ∈ e.operands, operand.PartsComputed p k) ↔
      ∀ operand ∈ e.operands, operand.exactNumber?.isSome := by
    refine forall₂_congr fun operand hoperand => ?_
    obtain ⟨t, m, hoperand, hm⟩ := h.operand hn hoperand
    exact hoperand.partsComputed_iff.trans (hoperand.parts_iff_exact hm)
  have value_iff (m : Int) : v.Whole s m ↔ m = n :=
    ⟨fun hm => hm.unique hwhole, fun hm => hm ▸ hwhole⟩
  simp only [operands_iff, h.textComputes_iff, value_iff]
  constructor
  · constructor
    · rintro ⟨hcomputed, hoperands⟩
      obtain ⟨_, outcome⟩ := h.outcome hn hoperands
      exact outcome.agrees_iff.mp hcomputed
    · intro hagrees
      have hoperands := h.agrees_operands hagrees
      obtain ⟨_, outcome⟩ := h.outcome hn hoperands
      exact ⟨outcome.agrees_iff.mpr hagrees, hoperands⟩
  · intro hsigned
    have isExact := h.exact_of_isSigned hn hsigned
    obtain ⟨x, hx⟩ := Option.isSome_iff_exists.mp isExact
    obtain ⟨_, outcome⟩ := h.outcome hn (h.exact_operands isExact)
    obtain ⟨hcomputed, rfl⟩ := outcome.exact_iff.mp hx
    refine outcome.agrees_iff.mp ⟨x, hcomputed, ?_⟩
    exact IntType.convert_of_holds (IntType.holds_ofScalar (outcome.isNumber hx).holds)

/-- The largest unsigned sum that an `int` holds. -/
def largestSum : Expr :=
  .binary (.scalar .uint) .add (.scalar .uint)
    (.literal (.scalar .uint) (.scalar (.uint 2147483646)))
    (.literal (.scalar .uint) (.scalar (.uint 1)))

theorem largestSum_text_agrees :
    largestSum.WholeConstant .uint ∧
      largestSum.value? .single .empty = some (.uint 2147483647) ∧
      ∃ x, largestSum.TextComputes (some x) ∧
        (Value.uint 2147483647).Whole .uint (IntType.unsigned.convert x.value) := by
  have sum : largestSum.WholeConstant .uint :=
    .binary (.literal (.uint 2147483646)) (.literal (.uint 1)) rfl rfl
  have value : largestSum.value? .single .empty = some (.uint 2147483647) := by decide +kernel
  exact ⟨sum, value, ((text_agrees_iff sum value).1.mpr (by decide +kernel)).1⟩

/-- The negative number -1 shifted to the left by 2. -/
def shiftedNegative : Expr :=
  .binary (.scalar .int) .shl (.scalar .int) (.literal (.scalar .int) (.scalar (.int (-1))))
    (.literal (.scalar .int) (.scalar (.int 2)))

/-- The unsigned complement of 5, which is larger than an `int`, divided by 2. -/
def halvedComplement : Expr :=
  .binary (.scalar .uint) .div (.scalar .uint)
    (.unary (.scalar .uint) .bitNot (.literal (.scalar .uint) (.scalar (.uint 5))))
    (.literal (.scalar .uint) (.scalar (.uint 2)))

/-- A shifted negative number has a value, and its text none; a complement has a text that is
computed in an `int`, and its half differs. -/
theorem text_differs :
    (shiftedNegative.WholeConstant .int ∧
      shiftedNegative.value? .single .empty = some (.int (-4)) ∧
      shiftedNegative.TextComputes none) ∧
    halvedComplement.WholeConstant .uint ∧
      halvedComplement.value? .single .empty = some (.uint 2147483645) ∧
      ∃ x, halvedComplement.TextComputes (some x) ∧
        IntType.unsigned.convert x.value = 4294967293 := by
  have shifted : shiftedNegative.WholeConstant .int :=
    .binary (.literal (.int (-1))) (.literal (.int 2)) rfl rfl
  have halved : halvedComplement.WholeConstant .uint :=
    .binary (.unary (.literal (.uint 5)) rfl) (.literal (.uint 2)) rfl rfl
  refine ⟨⟨shifted, by decide, shifted.textComputes_iff.mpr (by decide)⟩, halved, by decide, ?_⟩
  exact ⟨⟨.int, -3⟩, halved.textComputes_iff.mpr (by decide), by decide⟩

end Expr
end ColorLowering
