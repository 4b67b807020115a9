import ColorLowering.Proofs.Folding.Exact

/-!
# The operators on values are exact

On values of one whole type each operator, and each conversion between such types, has a result when
the exact one exists, and it is the same number. The bitwise operators are compared bit by bit, a
negative number having all bits beyond the width set.
-/
namespace ColorLowering

section Bits

theorem eq_of_testBit {a b : Int} (h : ∀ k, a.testBit k = b.testBit k) : a = b := by
  have apart : ∀ m n : Nat, ¬ ∀ k, m.testBit k = !n.testBit k := by
    intro m n hmn
    have large := hmn (m + n)
    rw [Nat.testBit_lt_two_pow, Nat.testBit_lt_two_pow] at large
    · cases large
    · exact (Nat.lt_two_pow_self (n := n)).trans_le (Nat.pow_le_pow_right (by omega) (by omega))
    · exact (Nat.lt_two_pow_self (n := m)).trans_le (Nat.pow_le_pow_right (by omega) (by omega))
  cases a with
  | ofNat m =>
      cases b with
      | ofNat n => exact congrArg Int.ofNat (Nat.eq_of_testBit_eq h)
      | negSucc n => exact absurd h (apart m n)
  | negSucc m =>
      cases b with
      | ofNat n => exact absurd (fun k => (h k).symm) (apart n m)
      | negSucc n =>
          refine congrArg Int.negSucc (Nat.eq_of_testBit_eq fun k => ?_)
          exact Bool.not_inj (h k)

theorem testBit_toInt (x : BitVec 32) (k : Nat) :
    x.toInt.testBit k = if k < 32 then x.getLsbD k else x.msb := by
  rw [BitVec.toInt_eq_msb_cond]
  cases hmsb : x.msb with
  | false =>
      change x.toNat.testBit k = _
      rw [BitVec.testBit_toNat]
      split
      · rfl
      · exact BitVec.getLsbD_of_ge x k (by omega)
  | true =>
      have negative : (x.toNat : Int) - (2 ^ 32 : Nat) = Int.negSucc (~~~x).toNat := by
        have := x.isLt
        rw [BitVec.toNat_not, Int.negSucc_eq]
        omega
      rw [if_pos rfl, negative]
      change (!(~~~x).toNat.testBit k) = _
      rw [BitVec.testBit_toNat, BitVec.getLsbD_not]
      split <;> simp_all

theorem toInt_and (i j : Int32) : (i &&& j).toInt = i.toInt.land j.toInt := by
  apply eq_of_testBit
  intro k
  rw [Int.testBit_land]
  simp only [← Int32.toInt_toBitVec, Int32.toBitVec_and, testBit_toInt]
  split <;> simp

theorem toInt_or (i j : Int32) : (i ||| j).toInt = i.toInt.lor j.toInt := by
  apply eq_of_testBit
  intro k
  rw [Int.testBit_lor]
  simp only [← Int32.toInt_toBitVec, Int32.toBitVec_or, testBit_toInt]
  split <;> simp

theorem toInt_xor (i j : Int32) : (i ^^^ j).toInt = i.toInt.xor j.toInt := by
  apply eq_of_testBit
  intro k
  rw [Int.testBit_lxor]
  simp only [← Int32.toInt_toBitVec, Int32.toBitVec_xor, testBit_toInt]
  split <;> simp

theorem toInt_not (i : Int32) : (~~~i).toInt = i.toInt.lnot := by
  apply eq_of_testBit
  intro k
  rw [Int.testBit_lnot]
  simp only [← Int32.toInt_toBitVec, Int32.toBitVec_not, testBit_toInt]
  split <;> simp [*]

end Bits

namespace SameNumber

open Value

theorem ofInt (n : Int) : SameNumber .int (ofInt? n) (Scalar.int.held? n) := by
  unfold ofInt? Scalar.held? Scalar.holds
  by_cases h : -2 ^ 31 ≤ n ∧ n < 2 ^ 31
  · rw [if_pos (by omega), if_pos (by simpa using h)]
    have whole := Whole.int (Int32.ofInt n)
    rw [Int32.toInt_ofInt_of_le h.1 h.2] at whole
    exact .some whole
  · rw [if_neg (by omega), if_neg (by simpa using h)]
    exact .none

theorem ofNat (n : Int) : SameNumber .uint (ofNat? n) (Scalar.uint.held? n) := by
  unfold ofNat? Scalar.held? Scalar.holds
  by_cases h : 0 ≤ n ∧ n < 2 ^ 32
  · rw [if_pos (by omega), if_pos (by simpa using h)]
    have whole := Whole.uint (UInt32.ofNat n.toNat)
    rw [UInt32.toNat_ofNat_of_lt' (by rw [UInt32.size]; omega), Int.toNat_of_nonneg h.1] at whole
    exact .some whole
  · rw [if_neg (by omega), if_neg (by simpa using h)]
    exact .none

theorem bool {b c : Bool} (h : b = c) : SameNumber .bool (some (.bool b)) (some c.toInt) :=
  .some (h ▸ .bool b)

theorem bind {s t : Scalar} {v : Option Value} {n : Option Int} {f : Value → Option Value}
    {g : Int → Option Int} (h : SameNumber s v n)
    (hf : ∀ w a, w.Whole s a → SameNumber t (f w) (g a)) : SameNumber t (v.bind f) (n.bind g) := by
  cases h with
  | none => exact .none
  | some hwhole => exact hf _ _ hwhole

theorem held {s : Scalar} {v : Option Value} {n : Int} (h : SameNumber s v (s.held? n))
    (hn : s.holds n) : SameNumber s v (some n) := by
  rwa [Scalar.held?, if_pos hn] at h

end SameNumber

namespace Value.Whole

variable {v w : Value} {s : Scalar} {a b n : Int}

theorem isWhole (h : v.Whole s n) : s.isWhole := by cases h <;> rfl

theorem whole? (h : v.Whole s n) : v.whole? = some n := by
  cases h with
  | bool b => cases b <;> rfl
  | int i => rfl
  | uint u => rfl

theorem isTrue (h : v.Whole s n) : v.isTrue = decide (n ≠ 0) := by
  cases h with
  | bool b => cases b <;> rfl
  | int i =>
      have zero : i.toInt = 0 ↔ i = 0 := by rw [← Int32.toInt_zero, Int32.toInt_inj]
      simp [Value.isTrue, zero]
  | uint u =>
      have zero : u.toNat = 0 ↔ u = 0 := by rw [← UInt32.toNat_zero, UInt32.toNat_inj]
      simp [Value.isTrue, zero]

theorem text (h : v.Whole s n) : v.text = s.numberText n := by
  cases h with
  | bool b => cases b <;> rfl
  | int i => rfl
  | uint u => rfl

theorem unique (h : v.Whole s n) (h' : v.Whole s b) : n = b :=
  Option.some.inj (h.whole?.symm.trans h'.whole?)

theorem holds (h : v.Whole s n) : s.holds n := by
  cases h with
  | bool b => cases b <;> rfl
  | int i => simpa [Scalar.holds] using ⟨i.le_toInt, i.toInt_lt⟩
  | uint u =>
      have := u.toNat_lt
      simp only [Scalar.holds, decide_eq_true_eq]
      omega

theorem convert? (h : v.Whole s n) (p : Precision) {s' : Scalar} (hs' : s'.isWhole) :
    SameNumber s' (v.convert? p s') (s'.number? n) := by
  cases s' with
  | bool => exact SameNumber.bool h.isTrue
  | int =>
      rw [Value.convert?, h.whole?]
      exact SameNumber.ofInt n
  | uint =>
      rw [Value.convert?, h.whole?]
      exact SameNumber.ofNat n
  | half => cases hs'
  | float => cases hs'

theorem number? (h : v.Whole s n) : s.number? n = some n := by
  cases h with
  | bool b => cases b <;> rfl
  | int i =>
      change Scalar.int.held? _ = _
      rw [Scalar.held?, if_pos (Whole.int i).holds]
  | uint u =>
      change Scalar.uint.held? _ = _
      rw [Scalar.held?, if_pos (Whole.uint u).holds]

theorem unary? (h : v.Whole s a) (op : UnaryOp) : SameNumber s (v.unary? op) (op.number? s a) := by
  cases h with
  | bool b =>
      cases op with
      | neg => exact .none
      | not => exact SameNumber.bool (by cases b <;> rfl)
      | bitNot => exact .none
  | int i =>
      cases op with
      | neg => exact SameNumber.ofInt _
      | not => exact .none
      | bitNot => exact .some (toInt_not i ▸ Whole.int (~~~i))
  | uint u =>
      cases op with
      | neg => exact .none
      | not => exact .none
      | bitNot =>
          have complement : ((~~~u).toNat : Int) = 2 ^ 32 - 1 - u.toNat := by
            have := u.toNat_lt
            rw [UInt32.toNat_not, UInt32.size]
            omega
          exact .some (complement ▸ Whole.uint (~~~u))

end Value.Whole

namespace Value

/-- Apart from the smallest number divided by -1, quotients and remainders are whole numbers of the
type. -/
theorem holds_tdiv {i j : Int32} (h : ¬(i.toInt = -2 ^ 31 ∧ j.toInt = -1)) :
    Scalar.int.holds (i.toInt.tdiv j.toInt) := by
  by_cases hi : i = Int32.minValue
  · have hj : j ≠ -1 := by
      rintro rfl
      exact h ⟨by rw [hi]; rfl, rfl⟩
    rw [← Int32.toInt_div_of_ne_right i j hj]
    exact (Whole.int _).holds
  · rw [← Int32.toInt_div_of_ne_left i j hi]
    exact (Whole.int _).holds

theorem holds_shiftRight {a : Int} (ha : Scalar.int.holds a) (k : Nat) :
    Scalar.int.holds (a / 2 ^ k) := by
  simp only [Scalar.holds, decide_eq_true_eq] at ha ⊢
  have hk : (0 : Int) < 2 ^ k := Int.pow_pos (by decide)
  generalize (2 : Int) ^ k = width at hk ⊢
  exact ⟨Int.le_ediv_of_mul_le hk (by omega), Int.ediv_lt_of_lt_mul hk (by omega)⟩

theorem sameNumber_binaryBool (op : BinaryOp) (a b : Bool) :
    SameNumber (op.yields .bool) (binaryBool? op a b) (op.number? .bool a.toInt b.toInt) := by
  cases op with
  | eq => exact SameNumber.bool (by cases a <;> cases b <;> rfl)
  | ne => exact SameNumber.bool (by cases a <;> cases b <;> rfl)
  | and => exact SameNumber.bool (by cases a <;> cases b <;> rfl)
  | or => exact SameNumber.bool (by cases a <;> cases b <;> rfl)
  | _ => exact .none

theorem sameNumber_binaryInt (op : BinaryOp) (i j : Int32) :
    SameNumber (op.yields .int) (binaryInt? op i j) (op.number? .int i.toInt j.toInt) := by
  cases op with
  | add => exact SameNumber.ofInt _
  | sub => exact SameNumber.ofInt _
  | mul => exact SameNumber.ofInt _
  | div =>
      dsimp only [binaryInt?, BinaryOp.number?, BinaryOp.yields]
      by_cases hj : j.toInt = 0
      · rw [if_pos hj, if_pos (.inl hj)]
        exact .none
      rw [if_neg hj]
      by_cases hmin : i.toInt = -2 ^ 31 ∧ j.toInt = -1
      · rw [if_pos (.inr hmin), hmin.1, hmin.2]
        exact .none
      · rw [if_neg (not_or.mpr ⟨hj, hmin⟩)]
        exact (SameNumber.ofInt _).held (holds_tdiv hmin)
  | mod =>
      dsimp only [binaryInt?, BinaryOp.number?, BinaryOp.yields]
      by_cases hj : j.toInt = 0 ∨ (i.toInt = -2 ^ 31 ∧ j.toInt = -1)
      · rw [if_pos hj, if_pos (by omega)]
        exact .none
      · rw [if_neg hj, if_neg (by omega), ← Int32.toInt_mod]
        exact (SameNumber.ofInt _).held (Whole.int _).holds
  | eq => exact SameNumber.bool rfl
  | ne => exact SameNumber.bool rfl
  | lt => exact SameNumber.bool rfl
  | le => exact SameNumber.bool rfl
  | gt => exact SameNumber.bool rfl
  | ge => exact SameNumber.bool rfl
  | and => exact .none
  | or => exact .none
  | bitAnd => exact .some (toInt_and i j ▸ Whole.int (i &&& j))
  | bitOr => exact .some (toInt_or i j ▸ Whole.int (i ||| j))
  | bitXor => exact .some (toInt_xor i j ▸ Whole.int (i ^^^ j))
  | shl =>
      dsimp only [binaryInt?, BinaryOp.number?, BinaryOp.yields]
      split
      · rw [Int.shiftLeft_eq]
        exact SameNumber.ofInt _
      · exact .none
  | shr =>
      dsimp only [binaryInt?, BinaryOp.number?, BinaryOp.yields]
      split
      · rw [Int.shiftRight_eq_div_pow, Int.natCast_pow]
        exact (SameNumber.ofInt _).held (holds_shiftRight (Whole.int i).holds _)
      · exact .none

theorem sameNumber_binaryUInt (op : BinaryOp) (u v : UInt32) :
    SameNumber (op.yields .uint) (binaryUInt? op u v) (op.number? .uint u.toNat v.toNat) := by
  have hu : (0 : Int) ≤ u.toNat := Int.natCast_nonneg _
  cases op with
  | add => exact SameNumber.ofNat _
  | sub => exact SameNumber.ofNat _
  | mul => exact SameNumber.ofNat _
  | div =>
      dsimp only [binaryUInt?, BinaryOp.number?, BinaryOp.yields]
      by_cases hv : (v.toNat : Int) = 0
      · rw [if_pos hv, if_pos (.inl hv)]
        exact .none
      · rw [if_neg hv, if_neg (by omega), Int.tdiv_eq_ediv_of_nonneg hu]
        have quotient := (Whole.uint (u / v)).holds
        rw [UInt32.toNat_div, Int.natCast_ediv] at quotient
        exact (SameNumber.ofNat _).held quotient
  | mod =>
      dsimp only [binaryUInt?, BinaryOp.number?, BinaryOp.yields]
      by_cases hv : (v.toNat : Int) = 0
      · rw [if_pos hv, if_pos (.inl hv)]
        exact .none
      · rw [if_neg hv, if_neg (by omega), Int.tmod_eq_emod_of_nonneg hu]
        have remainder := (Whole.uint (u % v)).holds
        rw [UInt32.toNat_mod, Int.natCast_emod] at remainder
        exact (SameNumber.ofNat _).held remainder
  | eq => exact SameNumber.bool rfl
  | ne => exact SameNumber.bool rfl
  | lt => exact SameNumber.bool rfl
  | le => exact SameNumber.bool rfl
  | gt => exact SameNumber.bool rfl
  | ge => exact SameNumber.bool rfl
  | and => exact .none
  | or => exact .none
  | bitAnd =>
      have both := Whole.uint (u &&& v)
      rw [UInt32.toNat_and] at both
      exact .some both
  | bitOr =>
      have either := Whole.uint (u ||| v)
      rw [UInt32.toNat_or] at either
      exact .some either
  | bitXor =>
      have one := Whole.uint (u ^^^ v)
      rw [UInt32.toNat_xor] at one
      exact .some one
  | shl =>
      dsimp only [binaryUInt?, BinaryOp.number?, BinaryOp.yields]
      by_cases hv : (v.toNat : Int) < 32
      · rw [if_pos hv, if_pos ⟨Int.natCast_nonneg _, hv⟩, Int.shiftLeft_eq]
        refine (SameNumber.ofNat _).held ?_
        simp only [Scalar.holds, decide_eq_true_eq]
        omega
      · rw [if_neg hv, if_neg (by omega)]
        exact .none
  | shr =>
      dsimp only [binaryUInt?, BinaryOp.number?, BinaryOp.yields]
      by_cases hv : (v.toNat : Int) < 32
      · rw [if_pos hv, if_pos ⟨Int.natCast_nonneg _, hv⟩, Int.shiftRight_eq_div_pow,
          Int.natCast_pow]
        refine (SameNumber.ofNat _).held ?_
        have below := Int.ediv_le_self (2 ^ (v.toNat : Int).toNat) hu
        have above : (0 : Int) ≤ u.toNat / 2 ^ (v.toNat : Int).toNat :=
          Int.ediv_nonneg hu (Int.pow_nonneg (by decide))
        have := u.toNat_lt
        simp only [Scalar.holds, decide_eq_true_eq, Nat.cast_ofNat]
        omega
      · rw [if_neg hv, if_neg (by omega)]
        exact .none

theorem Whole.binary? {v w : Value} {s : Scalar} {a b : Int} (hv : v.Whole s a)
    (hw : w.Whole s b) (p : Precision) (op : BinaryOp) :
    SameNumber (op.yields s) (v.binary? p op w) (op.number? s a b) := by
  cases hv with
  | bool b =>
      cases hw
      exact sameNumber_binaryBool op b _
  | int i =>
      cases hw
      exact sameNumber_binaryInt op i _
  | uint u =>
      cases hw
      exact sameNumber_binaryUInt op u _

end Value

theorem SameNumber.convertBack {s : Scalar} {v : Option Value} {n : Option Int}
    (h : SameNumber s v n) (p : Precision) :
    SameNumber s (v.bind (·.convertTo? p (.scalar s))) n := by
  cases h with
  | none => exact .none
  | some hwhole =>
      have same := hwhole.convert? p hwhole.isWhole
      rwa [hwhole.number?] at same

end ColorLowering
