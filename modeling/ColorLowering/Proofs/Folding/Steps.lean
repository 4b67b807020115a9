import ColorLowering.Proofs.Folding.Machine
import ColorLowering.Proofs.Folding.Operators

/-!
# Single operations, exact and by machine

An exact operation on numbers of a type is set beside what the machine makes of the same numbers. It
carries a signed number as an `int` or a `long`, and an unsigned one, whose literal has no suffix,
as either of these as well. On truth values and signed numbers it computes the exact result unless a
negative number is shifted to the left; on unsigned ones, sums, products and shifts to the left may
leave the `int` or the unsigned range, and a complement is negative in a signed type.
-/
namespace ColorLowering

open Cpp

theorem Scalar.held?_eq_some {s : Scalar} {m n : Int} :
    s.held? m = some n ↔ s.holds m ∧ m = n := by
  simp only [held?, Option.ite_none_right_eq_some, Option.some.injEq]

def UnaryOp.machineType (op : UnaryOp) (t : IntType) : IntType :=
  match op with
  | .not => .bool
  | _ => t.promoted

/-- Whether the exact result is computed from an exact number of the type `t`. -/
def UnaryOp.isExact (op : UnaryOp) (s : Scalar) (t : IntType) : Bool :=
  op ≠ .bitNot ∨ s ≠ .uint ∨ t = .unsigned

theorem UnaryOp.isExact_of_ne_uint {op : UnaryOp} {s : Scalar} (h : s ≠ .uint) (t : IntType) :
    op.isExact s t = true := by
  simp [isExact, h]

namespace BinaryOp

def machineType (op : BinaryOp) (t u : IntType) : IntType :=
  match op with
  | .eq | .ne | .lt | .le | .gt | .ge | .and | .or => .bool
  | .shl | .shr => t.promoted
  | _ => t.common u

def isDefined (op : BinaryOp) (s : Scalar) (t : IntType) (a b : Int) : Bool :=
  match s, op with
  | .int, .shl => 0 ≤ a
  | .uint, .add => t ≠ .int ∨ a + b < 2 ^ 31
  | .uint, .mul => t ≠ .int ∨ a * b < 2 ^ 31
  | .uint, .shl => t ≠ .int ∨ a * 2 ^ b.toNat < 2 ^ 31
  | _, _ => true

def isExact (op : BinaryOp) (s : Scalar) (t : IntType) (a b : Int) : Bool :=
  op.isDefined s t a b &&
    (op ≠ .shl ∨ s ≠ .uint ∨ t ≠ .long ∨ a * 2 ^ b.toNat < 2 ^ 32)

theorem isExact_of_ne_shl {op : BinaryOp} (h : op ≠ .shl) (s : Scalar) (t : IntType) (a b : Int) :
    op.isExact s t a b = op.isDefined s t a b := by
  simp [isExact, h]

theorem isExact_of_ne_uint {op : BinaryOp} {s : Scalar} (hs : s ≠ .uint) (hop : op ≠ .shl)
    (t : IntType) (a b : Int) : op.isExact s t a b = true := by
  rw [isExact_of_ne_shl hop]
  cases s <;> cases op <;> first
    | rfl
    | exact absurd rfl hs
    | exact absurd rfl hop

end BinaryOp

namespace Cpp

namespace IntType

/-- The types in which numbers of a scalar type are computed. -/
def carries : IntType → Scalar → Bool
  | bool, .bool => true
  | int, .int | long, .int => true
  | int, .uint | unsigned, .uint | long, .uint => true
  | _, _ => false

variable {t u : IntType} {s : Scalar} {a n : Int}

theorem carries_ofScalar (hs : s.isWhole) : (ofScalar s).carries s := by
  cases s with
  | bool | int | uint => rfl
  | half | float => cases hs

theorem holds_ofScalar (hn : s.holds n) : (ofScalar s).holds n := by
  cases s with
  | bool | int | uint => exact hn
  | half | float => cases hn

/-- What the type of a number holds is held where it is carried, but for an `int`. -/
theorem holds_of_carries (ht : t.carries s) (hn : s.holds n)
    (hsmall : t = int → s = .uint → n < 2 ^ 31) : t.holds n := by
  cases s <;> cases t <;> simp_all [carries, Scalar.holds, holds] <;> omega

theorem carries_common (ht : t.carries s) (hu : u.carries s) (hs : s ≠ .bool) :
    (t.common u).carries s := by
  cases s <;> cases t <;> cases u <;> simp_all [carries, common]

theorem carries_promoted (ht : t.carries s) (hs : s ≠ .bool) : t.promoted.carries s := by
  cases s <;> cases t <;> simp_all [carries, promoted]

end IntType

/-- The number is `a` of the scalar type `s`, and its own type holds it. -/
structure Number.Is (x : Number) (s : Scalar) (a : Int) : Prop where
  value : x.value = a
  carries : x.ty.carries s
  fits : x.ty.holds a
  holds : s.holds a

/-- What comes of an operation on exact numbers with the exact result `n`: nothing where it is not
defined, otherwise a number of the type `t` that is converted to `n`, and `n` itself exactly where
the operation is exact. -/
structure Gives (result : Option Number) (t : IntType) (s : Scalar) (n : Int)
    (isDefined isExact : Bool) : Prop where
  undefined : isDefined = false → result = none
  converted : isDefined = true →
    ∃ m, result = some ⟨t, m⟩ ∧ (IntType.ofScalar s).convert m = n
  exact_iff : result = some ⟨t, n⟩ ↔ isExact = true
  isNumber : isExact = true → Number.Is ⟨t, n⟩ s n

namespace Gives

variable {result : Option Number} {t : IntType} {s : Scalar} {m n : Int} {isDefined isExact : Bool}

theorem exactly (hresult : result = some ⟨t, n⟩) (hn : Number.Is ⟨t, n⟩ s n)
    (hdefined : isDefined = true) (hexact : isExact = true) :
    Gives result t s n isDefined isExact where
  undefined h := nomatch hdefined.symm.trans h
  converted _ := ⟨n, hresult, IntType.convert_of_holds (IntType.holds_ofScalar hn.holds)⟩
  exact_iff := iff_of_true hresult hexact
  isNumber _ := hn

theorem nothing (hresult : result = none) (hdefined : isDefined = false)
    (hexact : isExact = false) : Gives result t s n isDefined isExact where
  undefined _ := hresult
  converted h := nomatch h.symm.trans hdefined
  exact_iff := by rw [hresult, hexact]; exact iff_of_false nofun Bool.false_ne_true
  isNumber h := nomatch h.symm.trans hexact

theorem otherwise (hresult : result = some ⟨t, m⟩) (hm : m ≠ n)
    (hn : (IntType.ofScalar s).convert m = n) (hdefined : isDefined = true)
    (hexact : isExact = false) : Gives result t s n isDefined isExact where
  undefined h := nomatch hdefined.symm.trans h
  converted _ := ⟨m, hresult, hn⟩
  exact_iff := by
    rw [hresult, hexact]
    exact iff_of_false (fun h => hm (congrArg Number.value (Option.some.inj h)))
      Bool.false_ne_true
  isNumber h := nomatch h.symm.trans hexact

end Gives

namespace Number

variable {x y : Number} {s : Scalar} {a b n : Int}

theorem is_truth (b : Bool) : (truth b).Is .bool b.toInt := by
  cases b <;> exact ⟨rfl, rfl, rfl, rfl⟩

theorem Is.convert {s' : Scalar} (hx : x.Is s a) (hs : s'.isWhole) (hn : s'.number? a = some n) :
    (x.cast (IntType.ofScalar s')).Is s' n := by
  have holds : s'.holds n ∧ (IntType.ofScalar s').convert a = n := by
    cases s' with
    | bool =>
        cases hn
        exact ⟨by cases decide (a ≠ 0) <;> rfl, rfl⟩
    | int | uint =>
        obtain ⟨hholds, rfl⟩ := Scalar.held?_eq_some.mp hn
        exact ⟨hholds, IntType.convert_of_holds (IntType.holds_ofScalar hholds)⟩
    | half | float => cases hs
  have converted : (x.cast (IntType.ofScalar s')).value = n := by
    rw [cast, hx.value]
    exact holds.2
  exact ⟨converted, IntType.carries_ofScalar hs, IntType.holds_ofScalar holds.1, holds.1⟩

theorem Is.common (hx : x.Is s a) (hy : y.Is s b) :
    (x.ty.common y.ty).holds a ∧ (x.ty.common y.ty).holds b := by
  obtain ⟨t, _⟩ := x
  obtain ⟨u, _⟩ := y
  obtain ⟨-, ht, hta, hsa⟩ := hx
  obtain ⟨-, hu, hub, hsb⟩ := hy
  cases s <;> cases t <;> cases u <;>
    simp_all [IntType.carries, IntType.common, IntType.holds, Scalar.holds] <;> omega

end Number
end Cpp

/-! ### Exact results -/

theorem exists_whole {s : Scalar} {n : Int} (hn : s.holds n) : ∃ v : Value, v.Whole s n := by
  have held : s.held? n = some n := if_pos hn
  cases s with
  | bool =>
      rcases (by simpa [Scalar.holds] using hn : n = 0 ∨ n = 1) with rfl | rfl
      · exact ⟨_, .bool false⟩
      · exact ⟨_, .bool true⟩
  | int =>
      have same := SameNumber.ofInt n
      rw [held] at same
      generalize Value.ofInt? n = v at same
      cases same with
      | some h => exact ⟨_, h⟩
  | uint =>
      have same := SameNumber.ofNat n
      rw [held] at same
      generalize Value.ofNat? n = v at same
      cases same with
      | some h => exact ⟨_, h⟩
  | half | float => cases hn

theorem SameNumber.exists_of_some {s : Scalar} {v : Option Value} {n : Int}
    (h : SameNumber s v (some n)) : ∃ w, v = some w ∧ w.Whole s n := by
  cases h with
  | some hwhole => exact ⟨_, rfl, hwhole⟩

theorem UnaryOp.holds_of_number? {op : UnaryOp} {s : Scalar} {a n : Int} (ha : s.holds a)
    (hn : op.number? s a = some n) : s.holds n := by
  obtain ⟨v, hv⟩ := exists_whole ha
  obtain ⟨w, -, hw⟩ := SameNumber.exists_of_some (hn ▸ hv.unary? op)
  exact hw.holds

theorem BinaryOp.holds_of_number? {op : BinaryOp} {s : Scalar} {a b n : Int} (ha : s.holds a)
    (hb : s.holds b) (hn : op.number? s a b = some n) : (op.yields s).holds n := by
  obtain ⟨v, hv⟩ := exists_whole ha
  obtain ⟨w, hw⟩ := exists_whole hb
  obtain ⟨r, -, hr⟩ := SameNumber.exists_of_some (hn ▸ hv.binary? hw .single op)
  exact hr.holds

namespace Cpp.Number

variable {x y : Number} {s : Scalar} {a b n : Int}

theorem lnot_eq (a : Int) : a.lnot = -a - 1 := by
  cases a with
  | ofNat m =>
      change Int.negSucc m = -(m : Int) - 1
      omega
  | negSucc m =>
      change (m : Int) = -Int.negSucc m - 1
      omega

theorem gives_unary (hx : x.Is s a) (op : UnaryOp) (hn : op.number? s a = some n) :
    Gives (unary? op x) (op.machineType x.ty) s n true (op.isExact s x.ty) := by
  obtain ⟨t, value⟩ := x
  obtain ⟨hvalue, ht, hfits, ha⟩ := hx
  dsimp only at hvalue ht hfits ⊢
  subst hvalue
  have holds := UnaryOp.holds_of_number? ha hn
  have signed (hs : s = .int) (hm : op ≠ .not) :
      Number.Is ⟨t.promoted, n⟩ s n ∧ t.promoted.result? n = some ⟨t.promoted, n⟩ := by
    subst hs
    have carried := IntType.carries_promoted ht (by decide)
    have fits := IntType.holds_of_carries carried holds (by simp)
    exact ⟨⟨rfl, carried, fits, holds⟩, IntType.result?_of_holds fits⟩
  cases op with
  | not =>
      cases s with
      | bool =>
          cases hn
          exact .exactly rfl (is_truth _) rfl rfl
      | _ => cases hn
  | neg =>
      cases s with
      | int =>
          obtain ⟨his, hresult⟩ := signed rfl (by decide)
          have negated : n = -value := (Scalar.held?_eq_some.mp hn).2.symm
          rw [negated] at hresult his ⊢
          exact .exactly hresult his rfl rfl
      | _ => cases hn
  | bitNot =>
      cases s with
      | int =>
          obtain ⟨his, hresult⟩ := signed rfl (by decide)
          cases hn
          exact .exactly hresult his rfl rfl
      | uint =>
          cases hn
          simp only [Scalar.holds, decide_eq_true_eq] at ha
          have reduced : (-value - 1) % 2 ^ 32 = 2 ^ 32 - 1 - value := by omega
          change Gives (t.promoted.result? value.lnot) _ _ _ _ _
          rw [lnot_eq]
          cases t with
          | bool => cases ht
          | unsigned =>
              refine .exactly ?_ ⟨rfl, rfl, holds, holds⟩ rfl rfl
              exact (IntType.result?_unsigned _).trans (by rw [reduced]; rfl)
          | int =>
              have fits : IntType.int.holds (-value - 1) := by
                rw [IntType.holds_int] at hfits ⊢
                omega
              exact .otherwise (IntType.result?_of_holds fits) (by omega) reduced rfl rfl
          | long =>
              have fits : IntType.long.holds (-value - 1) := IntType.holds_long.mpr (by omega)
              exact .otherwise (IntType.result?_of_holds fits) (by omega) reduced rfl rfl
      | _ => cases hn

/-! ### Binary operations -/

/-- The operation has operands of one type, and no result larger than both unless it is negative. -/
def IsBounded (op : BinaryOp) : Prop :=
  op = .sub ∨ op = .div ∨ op = .mod ∨ op = .bitAnd ∨ op = .bitOr ∨ op = .bitXor

theorem IsBounded.yields {op : BinaryOp} (hop : IsBounded op) (s : Scalar) : op.yields s = s := by
  rcases hop with rfl | rfl | rfl | rfl | rfl | rfl <;> rfl

theorem binary?_eq_arithmetic (hx : x.Is s a) (hy : y.Is s b) {op : BinaryOp}
    (hop : op ≠ .and ∧ op ≠ .or ∧ op ≠ .shl ∧ op ≠ .shr) :
    binary? op (some x) (some y) = arithmetic? (x.ty.common y.ty) op a b := by
  obtain ⟨hand, hor, hshl, hshr⟩ := hop
  have left := IntType.convert_of_holds (hx.common hy).1
  have right := IntType.convert_of_holds (hx.common hy).2
  cases op <;> simp_all [binary?, hx.value, hy.value]

theorem gives_comparison (hx : x.Is s a) (hy : y.Is s b) {op : BinaryOp} (hop : op.isComparison)
    (hn : op.number? s a b = some n) :
    Gives (binary? op (some x) (some y)) .bool .bool n true true := by
  have kind : op ≠ .and ∧ op ≠ .or ∧ op ≠ .shl ∧ op ≠ .shr := by
    refine ⟨?_, ?_, ?_, ?_⟩ <;> rintro rfl <;> cases hop
  obtain ⟨c, hc, rfl⟩ : ∃ c : Bool,
      arithmetic? (x.ty.common y.ty) op a b = some (truth c) ∧ n = c.toInt := by
    cases op <;> first
      | exact absurd hop (by decide)
      | exact ⟨_, rfl, by cases s <;> cases hn <;> rfl⟩
  rw [binary?_eq_arithmetic hx hy kind, hc]
  exact .exactly rfl (is_truth c) rfl rfl

/-- The second operand has a number of its own, whether it is looked at or not. -/
theorem gives_logic (hx : x.Is s a) (hy : y.Is s b) {op : BinaryOp} (hop : op = .and ∨ op = .or)
    (hn : op.number? s a b = some n) :
    Gives (binary? op (some x) (some y)) .bool .bool n true true := by
  obtain ⟨c, hc, rfl⟩ : ∃ c : Bool,
      binary? op (some x) (some y) = some (truth c) ∧ n = c.toInt := by
    cases s with
    | bool =>
        rcases hop with rfl | rfl
        · cases hn
          refine ⟨_, ?_, rfl⟩
          by_cases ha : a = 0 <;> simp [binary?, hx.value, hy.value, ha]
        · cases hn
          refine ⟨_, ?_, rfl⟩
          by_cases ha : a = 0 <;> simp [binary?, hx.value, hy.value, ha]
    | _ => rcases hop with rfl | rfl <;> cases hn
  rw [hc]
  exact .exactly rfl (is_truth c) rfl rfl

/-- A bounded operation on numbers below `2 ^ 31` has the same result on signed numbers. -/
theorem holds_of_isBounded {op : BinaryOp} (hop : IsBounded op) {t : IntType} (ht : t.carries s)
    (ha : t.holds a) (hb : t.holds b) (hsa : s.holds a) (hsb : s.holds b)
    (hn : op.number? s a b = some n) : s.holds n ∧ t.holds n := by
  have holds := hop.yields s ▸ BinaryOp.holds_of_number? hsa hsb hn
  refine ⟨holds, IntType.holds_of_carries ht holds ?_⟩
  rintro rfl rfl
  have signed : op.number? .int a b = some n := by
    rcases hop with rfl | rfl | rfl | rfl | rfl | rfl
    · obtain ⟨hdifference, rfl⟩ := Scalar.held?_eq_some.mp hn
      have fits : Scalar.int.holds (a - b) := by
        simp only [IntType.holds, Scalar.holds, decide_eq_true_eq] at ha hsb hdifference ⊢
        omega
      exact if_pos fits
    all_goals exact hn
  have small := BinaryOp.holds_of_number? (s := .int) ha hb signed
  rw [hop.yields] at small
  simp only [Scalar.holds, decide_eq_true_eq] at small
  exact small.2

theorem gives_bounded (hx : x.Is s a) (hy : y.Is s b) {op : BinaryOp} (hop : IsBounded op)
    (hn : op.number? s a b = some n) :
    Gives (binary? op (some x) (some y)) (x.ty.common y.ty) s n true true := by
  have hs : s ≠ .bool := by
    rintro rfl
    rcases hop with rfl | rfl | rfl | rfl | rfl | rfl <;> cases hn
  have kind : op ≠ .and ∧ op ≠ .or ∧ op ≠ .shl ∧ op ≠ .shr := by
    refine ⟨?_, ?_, ?_, ?_⟩ <;> rintro rfl <;> simp [IsBounded] at hop
  have carried := IntType.carries_common hx.carries hy.carries hs
  have bounded {op' : BinaryOp} (hop' : IsBounded op') {m : Int}
      (hm : op'.number? s a b = some m) :=
    holds_of_isBounded hop' carried (hx.common hy).1 (hx.common hy).2 hx.holds hy.holds hm
  obtain ⟨holds, fits⟩ := bounded hop hn
  have result := IntType.result?_of_holds fits
  rw [binary?_eq_arithmetic hx hy kind]
  refine .exactly ?_ ⟨rfl, carried, fits, holds⟩ rfl rfl
  cases s with
  | int | uint =>
      rcases hop with rfl | rfl | rfl | rfl | rfl | rfl
      · obtain ⟨-, rfl⟩ := Scalar.held?_eq_some.mp hn
        exact result
      · simp only [BinaryOp.number?, Option.ite_none_left_eq_some, Option.some.injEq, not_or] at hn
        obtain ⟨⟨hb, -⟩, rfl⟩ := hn
        rw [arithmetic?, if_neg hb, result]
      · simp only [BinaryOp.number?, Option.ite_none_left_eq_some, Option.some.injEq] at hn
        obtain ⟨hdefined, rfl⟩ := hn
        have hb : b ≠ 0 := fun h => hdefined (.inl h)
        have fitsQuotient := (bounded (.inr (.inl rfl)) (if_neg hdefined)).2
        rw [arithmetic?, if_neg (by simp [hb, fitsQuotient]), result]
      all_goals
        cases hn
        exact result
  | bool => exact absurd rfl hs
  | half | float => cases hx.holds

/-- A sum or a product of unsigned numbers may be too large for an `int`. -/
theorem gives_sum (hx : x.Is s a) (hy : y.Is s b) {op : BinaryOp} (hop : op = .add ∨ op = .mul)
    (hn : op.number? s a b = some n) :
    Gives (binary? op (some x) (some y)) (x.ty.common y.ty) s n
      (op.isDefined s (x.ty.common y.ty) a b) (op.isExact s (x.ty.common y.ty) a b) := by
  have hs : s ≠ .bool := by
    rintro rfl
    rcases hop with rfl | rfl <;> cases hn
  have kind : op ≠ .and ∧ op ≠ .or ∧ op ≠ .shl ∧ op ≠ .shr := by
    rcases hop with rfl | rfl <;> decide
  have carried := IntType.carries_common hx.carries hy.carries hs
  have yields : op.yields s = s := by rcases hop with rfl | rfl <;> rfl
  have holds := yields ▸ BinaryOp.holds_of_number? hx.holds hy.holds hn
  rw [binary?_eq_arithmetic hx hy kind, BinaryOp.isExact_of_ne_shl kind.2.2.1]
  have result : arithmetic? (x.ty.common y.ty) op a b = (x.ty.common y.ty).result? n ∧
      (s = .uint → (op.isDefined s (x.ty.common y.ty) a b = true ↔
        (x.ty.common y.ty = .int → n < 2 ^ 31))) ∧
      (s = .int → op.isDefined s (x.ty.common y.ty) a b = true) := by
    cases s with
    | int | uint =>
        rcases hop with rfl | rfl
        all_goals
          obtain ⟨-, rfl⟩ := Scalar.held?_eq_some.mp hn
          simp [arithmetic?, BinaryOp.isDefined, imp_iff_not_or]
    | bool => exact absurd rfl hs
    | half | float => cases hx.holds
  generalize x.ty.common y.ty = t at carried result ⊢
  obtain ⟨hresult, hunsigned, hsigned⟩ := result
  rw [hresult]
  by_cases hsmall : t = .int → s = .uint → n < 2 ^ 31
  · have fits := IntType.holds_of_carries carried holds hsmall
    have hdefined : op.isDefined s t a b = true := by
      cases s with
      | int => exact hsigned rfl
      | uint => exact (hunsigned rfl).mpr fun ht => hsmall ht rfl
      | bool => exact absurd rfl hs
      | half | float => cases hx.holds
    exact .exactly (IntType.result?_of_holds fits) ⟨rfl, carried, fits, holds⟩ hdefined hdefined
  · simp only [Classical.not_imp] at hsmall
    obtain ⟨rfl, rfl, hlarge⟩ := hsmall
    have hundefined : op.isDefined .uint .int a b = false := by
      rw [← Bool.not_eq_true, hunsigned rfl]
      exact fun h => hlarge (h rfl)
    exact .nothing (IntType.result?_int_of_overflow (by omega)) hundefined hundefined

theorem shift?_of_count (hx : x.Is s a) {count : Int} (hcount : 0 ≤ count ∧ count < 32) :
    shift? .shl x count =
        (if a < 0 then none else x.ty.promoted.result? (a * 2 ^ count.toNat)) ∧
      shift? .shr x count = some ⟨x.ty.promoted, a / 2 ^ count.toNat⟩ := by
  have width : count < x.ty.promoted.width := by
    cases x.ty <;> simp only [IntType.promoted, IntType.width] <;> omega
  simp only [shift?, if_pos (And.intro hcount.1 width), hx.value, and_self]

theorem gives_shiftRight (hx : x.Is s a) (hy : y.Is s b)
    (hn : BinaryOp.shr.number? s a b = some n) :
    Gives (binary? .shr (some x) (some y)) x.ty.promoted s n true true := by
  have hs : s ≠ .bool := by
    rintro rfl
    cases hn
  have holds := BinaryOp.holds_of_number? hx.holds hy.holds hn
  obtain ⟨hcount, rfl⟩ : (0 ≤ b ∧ b < 32) ∧ a / 2 ^ b.toNat = n := by
    cases s with
    | int | uint =>
        simpa only [BinaryOp.number?, Option.ite_none_right_eq_some, Option.some.injEq] using hn
    | bool => exact absurd rfl hs
    | half | float => cases hx.holds
  have carried := IntType.carries_promoted hx.carries hs
  have fits : x.ty.promoted.holds (a / 2 ^ b.toNat) := by
    refine IntType.holds_of_carries carried holds fun ht hunsigned => ?_
    subst hunsigned
    have ha := hx.holds
    have small := hx.fits
    have int : x.ty = .int := by
      have := hx.carries
      cases hty : x.ty <;> simp_all [IntType.promoted, IntType.carries]
    rw [int] at small
    simp only [IntType.holds, Scalar.holds, decide_eq_true_eq] at ha small
    exact Int.lt_of_le_of_lt (Int.ediv_le_self _ ha.1) small.2
  have result : binary? .shr (some x) (some y) = shift? .shr x b := by rw [← hy.value]; rfl
  rw [result, (shift?_of_count hx hcount).2]
  exact .exactly rfl ⟨rfl, carried, fits, holds⟩ rfl rfl

theorem holds_long_shiftLeft (count : Nat) (ha : Scalar.uint.holds a) (hcount : count < 32) :
    IntType.long.holds (a * 2 ^ count) := by
  simp only [Scalar.holds, IntType.holds, decide_eq_true_eq] at ha ⊢
  have width : (2 : Int) ^ count ≤ 2 ^ 31 := by
    exact_mod_cast Nat.pow_le_pow_right (by decide : 0 < 2) (by omega : count ≤ 31)
  have positive : (0 : Int) ≤ 2 ^ count := Int.pow_nonneg (by decide)
  have above : a * 2 ^ count ≤ (2 ^ 32 - 1) * 2 ^ 31 :=
    Int.mul_le_mul (by omega) width positive (by decide)
  have below : 0 ≤ a * 2 ^ count := Int.mul_nonneg ha.1 positive
  omega

theorem binary?_shl (hx : x.Is s a) (hy : y.Is s b) (hcount : 0 ≤ b ∧ b < 32) :
    binary? .shl (some x) (some y) =
      if a < 0 then none else x.ty.promoted.result? (a * 2 ^ b.toNat) := by
  rw [← (shift?_of_count hx hcount).1, ← hy.value]
  rfl

/-- A negative number is not shifted to the left. -/
theorem gives_shiftLeft_int (hx : x.Is .int a) (hy : y.Is .int b)
    (hn : BinaryOp.shl.number? .int a b = some n) :
    Gives (binary? .shl (some x) (some y)) x.ty.promoted .int n (decide (0 ≤ a))
      (decide (0 ≤ a)) := by
  have holds := BinaryOp.holds_of_number? hx.holds hy.holds hn
  have carried := IntType.carries_promoted hx.carries (by decide)
  simp only [BinaryOp.number?, Option.ite_none_right_eq_some, Scalar.held?_eq_some] at hn
  obtain ⟨hcount, -, rfl⟩ := hn
  have fits := IntType.holds_of_carries carried holds (by simp)
  rw [binary?_shl hx hy (by omega)]
  by_cases hnegative : a < 0
  · rw [if_pos hnegative, decide_eq_false (by omega)]
    exact .nothing rfl rfl rfl
  · rw [if_neg hnegative, decide_eq_true (by omega)]
    exact .exactly (IntType.result?_of_holds fits) ⟨rfl, carried, fits, holds⟩ rfl rfl

/-- An unsigned number is shifted to the left within the type that carries it. -/
theorem gives_shiftLeft_uint (hx : x.Is .uint a) (hy : y.Is .uint b)
    (hn : BinaryOp.shl.number? .uint a b = some n) :
    Gives (binary? .shl (some x) (some y)) x.ty.promoted .uint n
      (BinaryOp.shl.isDefined .uint x.ty.promoted a b)
      (BinaryOp.shl.isExact .uint x.ty.promoted a b) := by
  have holds := BinaryOp.holds_of_number? hx.holds hy.holds hn
  have carried := IntType.carries_promoted hx.carries (by decide)
  simp only [BinaryOp.number?, Option.ite_none_right_eq_some, Option.some.injEq] at hn
  obtain ⟨hcount, rfl⟩ := hn
  have ha := hx.holds
  have long := holds_long_shiftLeft b.toNat ha (by omega)
  simp only [Scalar.holds, decide_eq_true_eq] at ha
  have positive : 0 ≤ a * 2 ^ b.toNat := Int.mul_nonneg ha.1 (Int.pow_nonneg (by decide))
  rw [binary?_shl hx hy hcount, if_neg (by omega)]
  simp only [BinaryOp.isExact, BinaryOp.isDefined]
  generalize x.ty.promoted = t at carried ⊢
  generalize a * 2 ^ b.toNat = m at positive holds long ⊢
  cases t with
  | bool => cases carried
  | unsigned => exact .exactly rfl ⟨rfl, rfl, holds, holds⟩ (by simp) (by simp)
  | int =>
      by_cases hsmall : m < 2 ^ 31
      · have fits : IntType.int.holds m := IntType.holds_int.mpr (by omega)
        have same : m % 2 ^ 32 = m := by omega
        rw [same] at holds ⊢
        exact .exactly (IntType.result?_of_holds fits) ⟨rfl, rfl, fits, holds⟩ (by simp; omega)
          (by simp; omega)
      · exact .nothing (IntType.result?_int_of_overflow (by omega)) (by simp; omega)
          (by simp; omega)
  | long =>
      by_cases hsmall : m < 2 ^ 32
      · have same : m % 2 ^ 32 = m := by omega
        rw [same] at holds ⊢
        exact .exactly (IntType.result?_of_holds long) ⟨rfl, rfl, long, holds⟩ (by simp)
          (by simp; omega)
      · exact .otherwise (IntType.result?_of_holds long) (by omega) rfl (by simp) (by simp; omega)

/-- What the machine makes of exact numbers, for every operator that has an exact result. -/
theorem gives_binary (hx : x.Is s a) (hy : y.Is s b) (op : BinaryOp)
    (hn : op.number? s a b = some n) :
    Gives (binary? op (some x) (some y)) (op.machineType x.ty y.ty) (op.yields s) n
      (op.isDefined s (op.machineType x.ty y.ty) a b)
      (op.isExact s (op.machineType x.ty y.ty) a b) := by
  have harmless (hop : op ≠ .add ∧ op ≠ .mul ∧ op ≠ .shl) (t : IntType) :
      op.isDefined s t a b = true ∧ op.isExact s t a b = true := by
    obtain ⟨hadd, hmul, hshl⟩ := hop
    have defined : op.isDefined s t a b = true := by
      cases op <;> cases s <;> simp_all [BinaryOp.isDefined]
    exact ⟨defined, (BinaryOp.isExact_of_ne_shl hshl s t a b).trans defined⟩
  cases op with
  | eq | ne | lt | le | gt | ge =>
      rw [(harmless (by decide) _).1, (harmless (by decide) _).2]
      exact gives_comparison hx hy rfl hn
  | and | or =>
      rw [(harmless (by decide) _).1, (harmless (by decide) _).2]
      exact gives_logic hx hy (by simp) hn
  | sub | div | mod | bitAnd | bitOr | bitXor =>
      rw [(harmless (by decide) _).1, (harmless (by decide) _).2]
      exact gives_bounded hx hy (by simp [IsBounded]) hn
  | shr =>
      rw [(harmless (by decide) _).1, (harmless (by decide) _).2]
      exact gives_shiftRight hx hy hn
  | add => exact gives_sum hx hy (.inl rfl) hn
  | mul => exact gives_sum hx hy (.inr rfl) hn
  | shl =>
      cases s with
      | int =>
          have exact_iff_defined :
              BinaryOp.shl.isExact .int x.ty.promoted a b = decide (0 ≤ a) := by
            simp [BinaryOp.isExact, BinaryOp.isDefined]
          change Gives _ _ _ _ (decide (0 ≤ a)) (BinaryOp.shl.isExact .int x.ty.promoted a b)
          rw [exact_iff_defined]
          exact gives_shiftLeft_int hx hy hn
      | uint => exact gives_shiftLeft_uint hx hy hn
      | bool => cases hn
      | half | float => cases hx.holds

end Cpp.Number
end ColorLowering
