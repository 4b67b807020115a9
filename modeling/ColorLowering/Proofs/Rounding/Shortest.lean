import ColorLowering.Decimal.Shortest
import ColorLowering.Proofs.Rounding.Nearest

/-!
# Shortest decimals are nearest

The ends that a decimal is compared with are the midpoints to the neighbors of a number, in a unit
that makes all of them whole; so what reads back as a number is nearest to it. A step of the finest
grid is shorter than the way from one midpoint to the other, so one of the two steps around a number
lies between them, and the search for the shortest decimal always finds one.
-/
namespace ColorLowering

def Decimal.value (d : Decimal) : ℚ := d.digits * 10 ^ d.exponent

namespace Binary32

variable {x : Binary32} {p : Int} {d : Nat}

/-! ### Midpoints -/

/-- Below a power of two the unit is half as large, and there are half as many quarters. -/
theorem unitAt_pred (hx : 0 < x.magnitude) :
    unitAt (x.magnitude - 1) = x.quartersBelow * unitAt x.magnitude / 2 := by
  by_cases hpower : x.significand = 0x800000 ∧ 1 < x.exponentField
  · obtain ⟨hsignificand, hexponent⟩ := hpower
    rw [quartersBelow, if_pos ⟨hsignificand, hexponent⟩]
    rw [significand, if_neg (by omega)] at hsignificand
    unfold exponentField at hexponent
    have double : unitAt x.magnitude = 2 * unitAt (x.magnitude - 1) :=
      unitAt_double (e := x.magnitude / 0x800000 - 1) (by omega) (by omega) (by omega)
    rw [double]
    push_cast
    ring
  · have exponent : max ((x.magnitude - 1) / 0x800000) 1 = max (x.magnitude / 0x800000) 1 := by
      unfold significand exponentField at hpower
      split at hpower <;> omega
    rw [quartersBelow, if_neg hpower, unitAt, unitAt, exponent]
    push_cast
    ring

def lowEnd (x : Binary32) : ℚ := x.size - x.quartersBelow * unitAt x.magnitude / 4

def highEnd (x : Binary32) : ℚ := x.size + unitAt x.magnitude / 2

theorem two_mul_lowEnd (hx : 0 < x.magnitude) :
    2 * x.lowEnd = sizeAt (x.magnitude - 1) + x.size := by
  rw [sizeAt_pred hx, unitAt_pred hx, lowEnd, size_eq_sizeAt]
  ring

theorem two_mul_highEnd (x : Binary32) : 2 * x.highEnd = x.size + sizeAt (x.magnitude + 1) := by
  rw [sizeAt_succ, highEnd, size_eq_sizeAt]
  ring

/-! ### The common unit -/

/-- The unit of `decimalUnit` and `quarterUnit`, upside down. -/
def common (x : Binary32) (p : Int) : ℚ := 10 ^ (-p).toNat * 2 ^ (2 - x.scale).toNat

theorem common_pos (x : Binary32) (p : Int) : 0 < x.common p := by
  unfold common
  positivity

/-- A power with a negative exponent is made whole by the opposite power. -/
theorem zpow_mul_pow_neg {b : ℚ} (hb : b ≠ 0) (e : Int) :
    b ^ e * b ^ (-e).toNat = b ^ e.toNat := by
  rw [← zpow_natCast, ← zpow_natCast, ← zpow_add₀ hb]
  congr 1
  omega

theorem decimalUnit_eq (x : Binary32) (p : Int) : (x.decimalUnit p : ℚ) = 10 ^ p * x.common p := by
  have power := zpow_mul_pow_neg (by norm_num : (10 : ℚ) ≠ 0) p
  rw [decimalUnit, Nat.shiftLeft_eq, Nat.pow_eq, common, ← mul_assoc, power]
  push_cast
  ring

theorem quarterUnit_eq (x : Binary32) (p : Int) :
    (x.quarterUnit p : ℚ) = unitAt x.magnitude / 4 * x.common p := by
  have power := zpow_mul_pow_neg (two_ne_zero : (2 : ℚ) ≠ 0) (x.scale - 2)
  have quarter : unitAt x.magnitude / 4 = (2 : ℚ) ^ (x.scale - 2) := by
    rw [zpow_sub₀ two_ne_zero]
    norm_num [unitAt, scale, exponentField]
  rw [neg_sub] at power
  rw [quarterUnit, Nat.shiftLeft_eq, Nat.pow_eq, common, quarter, mul_left_comm, power]
  push_cast
  ring

/-! ### Reading back -/

theorem quartersBelow_le (hx : 0 < x.magnitude) : x.quartersBelow ≤ 4 * x.significand := by
  unfold quartersBelow significand exponentField
  split <;> split <;> omega

theorem point_eq (x : Binary32) (p : Int) (d : Nat) :
    ((d * x.decimalUnit p : Nat) : ℚ) = Decimal.value ⟨d, p⟩ * x.common p := by
  rw [Nat.cast_mul, decimalUnit_eq, Decimal.value]
  ring

theorem low_eq (hx : 0 < x.magnitude) (p : Int) :
    (((4 * x.significand - x.quartersBelow) * x.quarterUnit p : Nat) : ℚ) =
      x.lowEnd * x.common p := by
  have size : x.size = x.significand * unitAt x.magnitude := rfl
  rw [Nat.cast_mul, Nat.cast_sub (quartersBelow_le hx), quarterUnit_eq, lowEnd, size]
  push_cast
  ring

theorem high_eq (x : Binary32) (p : Int) :
    (((4 * x.significand + 2) * x.quarterUnit p : Nat) : ℚ) = x.highEnd * x.common p := by
  have size : x.size = x.significand * unitAt x.magnitude := rfl
  rw [Nat.cast_mul, quarterUnit_eq, highEnd, size]
  push_cast
  ring

/-- The test on whole numbers is a test on the decimal itself. -/
theorem readsBack_iff (hx : 0 < x.magnitude) : x.readsBack p d = true ↔
    if x.significand % 2 = 0 then
      x.lowEnd ≤ Decimal.value ⟨d, p⟩ ∧ Decimal.value ⟨d, p⟩ ≤ x.highEnd
    else x.lowEnd < Decimal.value ⟨d, p⟩ ∧ Decimal.value ⟨d, p⟩ < x.highEnd := by
  have unit := x.common_pos p
  unfold readsBack
  dsimp only
  split
  · rw [Bool.and_eq_true, decide_eq_true_iff, decide_eq_true_iff]
    rw [← Nat.cast_le (α := ℚ), ← Nat.cast_le (α := ℚ), low_eq hx, point_eq, high_eq,
      mul_le_mul_iff_left₀ unit, mul_le_mul_iff_left₀ unit]
  · rw [Bool.and_eq_true, decide_eq_true_iff, decide_eq_true_iff]
    rw [← Nat.cast_lt (α := ℚ), ← Nat.cast_lt (α := ℚ), low_eq hx, point_eq, high_eq,
      mul_lt_mul_iff_left₀ unit, mul_lt_mul_iff_left₀ unit]

/-- What reads back as a number is nearest to it. -/
theorem isNearest_of_readsBack (numeric : x.isNaN = false) (hx : 0 < x.magnitude)
    (h : x.readsBack p d = true) : IsNearest (Decimal.value ⟨d, p⟩) x := by
  have low := two_mul_lowEnd hx
  have high := x.two_mul_highEnd
  rw [readsBack_iff hx] at h
  by_cases heven : x.significand % 2 = 0
  · rw [if_pos heven] at h
    exact isNearest_of_between numeric (fun _ => by linarith [h.1]) (by linarith [h.2])
      fun hodd => by omega
  · rw [if_neg heven] at h
    exact isNearest_of_between numeric (fun _ => by linarith [h.1]) (by linarith [h.2])
      fun _ => ⟨by linarith [h.1], by linarith [h.2]⟩

/-! ### The search -/

/-- Strictly inside the ends, whether or not they belong to the interval. -/
theorem readsBack_of_inside
    (low : (4 * x.significand - x.quartersBelow) * x.quarterUnit p < d * x.decimalUnit p)
    (high : d * x.decimalUnit p < (4 * x.significand + 2) * x.quarterUnit p) :
    x.readsBack p d = true := by
  unfold readsBack
  dsimp only
  split
  · rw [Bool.and_eq_true, decide_eq_true_iff, decide_eq_true_iff]
    exact ⟨low.le, high.le⟩
  · rw [Bool.and_eq_true, decide_eq_true_iff, decide_eq_true_iff]
    exact ⟨low, high⟩

theorem readsBack_of_onGrid? {found : Decimal} (h : x.onGrid? p = some found) :
    x.readsBack found.exponent found.digits = true := by
  unfold onGrid? at h
  dsimp only at h
  split at h
  · rename_i hbelow habove
    cases h
    dsimp only
    split
    · exact habove
    · exact hbelow
  · cases h
    assumption
  · cases h
    assumption
  · cases h

theorem decimalUnit_pos (x : Binary32) (p : Int) : 0 < x.decimalUnit p := by
  rw [decimalUnit, Nat.shiftLeft_eq, Nat.pow_eq]
  positivity

theorem quarterUnit_pos (x : Binary32) (p : Int) : 0 < x.quarterUnit p := by
  rw [quarterUnit, Nat.shiftLeft_eq, Nat.pow_eq]
  positivity

/-- Of two steps around a number, one is inside, because a step is shorter than the interval and so
cannot leave out both of its halves. -/
theorem readsBack_or_succ (hx : 0 < x.magnitude)
    (hstep : x.decimalUnit p < (x.quartersBelow + 2) * x.quarterUnit p)
    (hle : d * x.decimalUnit p ≤ 4 * x.significand * x.quarterUnit p)
    (hlt : 4 * x.significand * x.quarterUnit p < (d + 1) * x.decimalUnit p) :
    x.readsBack p d = true ∨ x.readsBack p (d + 1) = true := by
  have unit := x.quarterUnit_pos p
  have inside := Nat.mul_le_mul_right (x.quarterUnit p) (quartersBelow_le hx)
  have low := Nat.sub_mul (4 * x.significand) x.quartersBelow (x.quarterUnit p)
  have high := Nat.add_mul (4 * x.significand) 2 (x.quarterUnit p)
  have whole := Nat.add_mul x.quartersBelow 2 (x.quarterUnit p)
  have next := Nat.add_one_mul d (x.decimalUnit p)
  by_cases hbelow : (4 * x.significand - x.quartersBelow) * x.quarterUnit p < d * x.decimalUnit p
  · exact .inl (readsBack_of_inside hbelow (by omega))
  · exact .inr (readsBack_of_inside (by omega) (by omega))

theorem onGrid?_isSome (hx : 0 < x.magnitude)
    (hstep : x.decimalUnit p < (x.quartersBelow + 2) * x.quarterUnit p) :
    (x.onGrid? p).isSome = true := by
  have h := readsBack_or_succ hx hstep (Nat.div_mul_le_self _ _)
    (Nat.lt_mul_of_div_lt (Nat.lt_succ_self _) (x.decimalUnit_pos p))
  unfold onGrid?
  dsimp only
  split
  · rfl
  · rfl
  · rfl
  · rename_i hneither hnext
    rw [hneither, hnext] at h
    cases h <;> contradiction

/-- The finest grid has a step shorter than the shortest interval: `2 ^ 151 < 4 * 10 ^ 45`, and
`2 ^ 150 < 3 * 10 ^ 45` for a power of two, whose interval is three quarters of that. -/
theorem finest_step (x : Binary32) :
    x.decimalUnit (-45) < (x.quartersBelow + 2) * x.quarterUnit (-45) := by
  have quarter : 10 ^ 45 ≤ x.quarterUnit (-45) := by
    rw [quarterUnit, Nat.shiftLeft_eq]
    exact Nat.le_mul_of_pos_right _ (by positivity)
  have step : x.decimalUnit (-45) = 2 ^ (2 - x.scale).toNat := by
    rw [decimalUnit, Nat.shiftLeft_eq]
    exact Nat.one_mul _
  have bound {k : Nat} (hk : (2 - x.scale).toNat ≤ k) : x.decimalUnit (-45) ≤ 2 ^ k := by
    rw [step]
    exact Nat.pow_le_pow_right (by decide) hk
  have scale : x.scale = (max x.exponentField 1 : Nat) - 150 := rfl
  unfold quartersBelow
  split
  · have := bound (k := 150) (by omega)
    omega
  · have := bound (k := 151) (by omega)
    omega

theorem readsBack_shortest (hx : 0 < x.magnitude) :
    x.readsBack x.shortest.exponent x.shortest.digits = true := by
  have finest : (-45 : Int) ∈ gridExponents := by decide
  have met : (gridExponents.findSome? x.onGrid?).isSome = true :=
    List.findSome?_isSome_iff.mpr ⟨-45, finest, onGrid?_isSome hx x.finest_step⟩
  obtain ⟨found, hfound⟩ := Option.isSome_iff_exists.mp met
  obtain ⟨p, _, hp⟩ := List.exists_of_findSome?_eq_some hfound
  rw [shortest, hfound, Option.getD_some]
  exact readsBack_of_onGrid? hp

/-- The shortest decimal of a number is nearest to it. -/
theorem isNearest_shortest (numeric : x.isNaN = false) (hx : 0 < x.magnitude) :
    IsNearest x.shortest.value x :=
  isNearest_of_readsBack numeric hx (readsBack_shortest hx)

end Binary32
end ColorLowering
