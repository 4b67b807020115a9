import ColorLowering.Decimal.Binary32
import Mathlib.Algebra.Order.Ring.Abs
import Mathlib.Tactic.Linarith
import Mathlib.Tactic.Ring

/-!
# The nearest number

A rational is rounded to the number nearest to it, and of two that are equally near to the one with
an even significand. Sizes grow with the magnitude, each time by a unit in the last place, so a
rational between the midpoints to both neighbors of a number rounds to it, and to no other.
-/
namespace ColorLowering
namespace Binary32

def isFinite (x : Binary32) : Bool := x.magnitude < infinite

/-- The value without its sign. The rule gives the infinite number the size of the next power of
two, which is what decides when rounding overflows. -/
def size (x : Binary32) : ℚ := x.significand * 2 ^ x.scale

/-- Among all numbers none is nearer to `q` in size, and none as near when the significand is odd. -/
structure IsNearest (q : ℚ) (x : Binary32) : Prop where
  numeric : x.isNaN = false
  nearest : ∀ y : Binary32, y.isNaN = false → |q - x.size| ≤ |q - y.size|
  even : ∀ y : Binary32, y.isNaN = false → y.size ≠ x.size → |q - x.size| = |q - y.size| →
    x.significand % 2 = 0

/-! ### Sizes -/

def unitAt (m : Nat) : ℚ := 2 ^ ((max (m / 0x800000) 1 : Nat) - 150 : Int)

def sizeAt (m : Nat) : ℚ :=
  (if m / 0x800000 = 0 then m else m % 0x800000 + 0x800000 : Nat) * unitAt m

theorem size_eq_sizeAt (x : Binary32) : x.size = sizeAt x.magnitude := rfl

theorem unitAt_pos (m : Nat) : 0 < unitAt m := zpow_pos two_pos _

/-- The unit doubles with every exponent but the first. -/
theorem unitAt_double {e m n : Nat} (he : e ≠ 0) (hm : m / 0x800000 = e)
    (hn : n / 0x800000 = e + 1) : unitAt n = 2 * unitAt m := by
  have larger : max (n / 0x800000) 1 = max (m / 0x800000) 1 + 1 := by omega
  have exponent : ((max (n / 0x800000) 1 : Nat) - 150 : Int) =
      1 + ((max (m / 0x800000) 1 : Nat) - 150 : Int) := by omega
  rw [unitAt, exponent, zpow_add₀ two_ne_zero, zpow_one, unitAt]

theorem sizeAt_succ (m : Nat) : sizeAt (m + 1) = sizeAt m + unitAt m := by
  by_cases hsame : (m + 1) / 0x800000 = m / 0x800000
  · have unit : unitAt (m + 1) = unitAt m := by rw [unitAt, unitAt, hsame]
    rw [sizeAt, sizeAt, unit, hsame]
    by_cases hsmall : m / 0x800000 = 0
    · rw [if_pos hsmall, if_pos hsmall]
      push_cast
      ring
    · have next : (m + 1) % 0x800000 = m % 0x800000 + 1 := by omega
      rw [if_neg hsmall, if_neg hsmall, next]
      push_cast
      ring
  · -- The significand was all ones: the next one is a power of two.
    have last : m % 0x800000 = 0x7fffff := by omega
    have first : (m + 1) % 0x800000 = 0 := by omega
    have next : (m + 1) / 0x800000 = m / 0x800000 + 1 := by omega
    rw [sizeAt, sizeAt, if_neg (by omega : ¬(m + 1) / 0x800000 = 0), first]
    by_cases hsmall : m / 0x800000 = 0
    · have unit : unitAt (m + 1) = unitAt m := by rw [unitAt, unitAt, next, hsmall]; rfl
      have largest : m = 0x7fffff := by omega
      rw [if_pos hsmall, unit, largest]
      push_cast
      ring
    · rw [if_neg hsmall, last, unitAt_double hsmall rfl next]
      push_cast
      ring

theorem sizeAt_strictMono : StrictMono sizeAt :=
  strictMono_nat_of_lt_succ fun m => by
    have := unitAt_pos m
    rw [sizeAt_succ]
    linarith

theorem sizeAt_pred {m : Nat} (hm : 0 < m) : sizeAt (m - 1) = sizeAt m - unitAt (m - 1) := by
  have step := sizeAt_succ (m - 1)
  rw [Nat.sub_add_cancel hm] at step
  linarith

theorem significand_mod_two (x : Binary32) : x.significand % 2 = x.magnitude % 2 := by
  unfold significand
  split <;> omega

/-! ### Nearest -/

theorem nearer_iff (q a b : ℚ) : |q - a| ≤ |q - b| ↔ 0 ≤ (a - b) * (2 * q - (a + b)) := by
  have factors : (q - b) ^ 2 - (q - a) ^ 2 = (a - b) * (2 * q - (a + b)) := by ring
  rw [← sq_le_sq, ← sub_nonneg, factors]

theorem nearer_than_lower {a b : ℚ} (q : ℚ) (h : b < a) :
    |q - a| ≤ |q - b| ↔ a + b ≤ 2 * q := by
  rw [nearer_iff, mul_nonneg_iff_of_pos_left (sub_pos.mpr h), sub_nonneg]

theorem nearer_than_upper {a b : ℚ} (q : ℚ) (h : a < b) :
    |q - a| ≤ |q - b| ↔ 2 * q ≤ a + b := by
  rw [nearer_iff, ← neg_mul_neg, neg_sub, neg_sub, mul_nonneg_iff_of_pos_left (sub_pos.mpr h),
    sub_nonneg]

theorem isNaN_eq_false {x : Binary32} : x.isNaN = false ↔ x.magnitude ≤ infinite := by
  rw [isNaN, decide_eq_false_iff_not, Nat.not_lt]

/-- Between the midpoints to both neighbors, which only go to an even significand. -/
theorem isNearest_of_between {q : ℚ} {x : Binary32} (numeric : x.isNaN = false)
    (lower : 0 < x.magnitude → sizeAt (x.magnitude - 1) + x.size ≤ 2 * q)
    (upper : 2 * q ≤ x.size + sizeAt (x.magnitude + 1))
    (odd : x.significand % 2 = 1 → sizeAt (x.magnitude - 1) + x.size < 2 * q ∧
      2 * q < x.size + sizeAt (x.magnitude + 1)) : IsNearest q x := by
  rw [size_eq_sizeAt] at lower upper odd
  have other (y : Binary32) : |q - x.size| ≤ |q - y.size| ∧
      (y.size ≠ x.size → |q - x.size| = |q - y.size| → x.significand % 2 = 0) := by
    rw [size_eq_sizeAt, size_eq_sizeAt]
    rcases Nat.lt_trichotomy y.magnitude x.magnitude with hbelow | hsame | habove
    · have least := lower (by omega)
      have next : sizeAt y.magnitude ≤ sizeAt (x.magnitude - 1) :=
        sizeAt_strictMono.monotone (by omega)
      have apart := sizeAt_strictMono hbelow
      refine ⟨(nearer_than_lower q apart).mpr (by linarith), fun _ htie => ?_⟩
      by_contra hodd
      have between := (odd (by omega)).1
      have far := (nearer_than_upper q apart).mp htie.ge
      linarith
    · rw [hsame]
      exact ⟨le_rfl, fun hne _ => absurd rfl hne⟩
    · have next : sizeAt (x.magnitude + 1) ≤ sizeAt y.magnitude :=
        sizeAt_strictMono.monotone (by omega)
      have apart := sizeAt_strictMono habove
      refine ⟨(nearer_than_upper q apart).mpr (by linarith), fun _ htie => ?_⟩
      by_contra hodd
      have between := (odd (by omega)).2
      have far := (nearer_than_lower q apart).mp htie.ge
      linarith
  exact ⟨numeric, fun y _ => (other y).1, fun y _ => (other y).2⟩

theorem isNearest_size {x : Binary32} (numeric : x.isNaN = false) : IsNearest x.size x where
  numeric := numeric
  nearest y _ := by
    rw [sub_self, abs_zero]
    exact abs_nonneg _
  even y _ hne htie := by
    rw [sub_self, abs_zero, eq_comm, abs_eq_zero, sub_eq_zero] at htie
    exact absurd htie.symm hne

/-- Of two numbers nearest to `q`, the magnitudes are not apart: between them there would be a nearer
one, or else one of the two significands is odd. -/
theorem IsNearest.magnitude_le {q : ℚ} {x y : Binary32} (hx : IsNearest q x)
    (hy : IsNearest q y) : y.magnitude ≤ x.magnitude := by
  by_contra! hlt
  have apart : x.size < y.size := sizeAt_strictMono hlt
  have below := (nearer_than_upper q apart).mp (hx.nearest y hy.numeric)
  have above := (nearer_than_lower q apart).mp (hy.nearest x hx.numeric)
  by_cases hnext : y.magnitude = x.magnitude + 1
  · have tie : |q - x.size| = |q - y.size| :=
      le_antisymm (hx.nearest y hy.numeric) (hy.nearest x hx.numeric)
    have evenX := hx.even y hy.numeric apart.ne' tie
    have evenY := hy.even x hx.numeric apart.ne tie.symm
    rw [significand_mod_two] at evenX evenY
    omega
  · have finite := isNaN_eq_false.mp hy.numeric
    obtain ⟨z, hz⟩ : ∃ z : Binary32, z.magnitude = x.magnitude + 1 := by
      refine ⟨⟨UInt32.ofNat (x.magnitude + 1)⟩, ?_⟩
      unfold infinite at finite
      change (x.magnitude + 1) % 2 ^ 32 % 0x80000000 = _
      omega
    have numeric : z.isNaN = false := isNaN_eq_false.mpr (by omega)
    have first : x.size < z.size := sizeAt_strictMono (by omega)
    have second : z.size < y.size := sizeAt_strictMono (by omega)
    have nearer := (nearer_than_upper q first).mp (hx.nearest z numeric)
    linarith

theorem IsNearest.magnitude_unique {q : ℚ} {x y : Binary32} (hx : IsNearest q x)
    (hy : IsNearest q y) : x.magnitude = y.magnitude :=
  Nat.le_antisymm (hy.magnitude_le hx) (hx.magnitude_le hy)

theorem ext_of_sign {x y : Binary32} (sign : x.isNegative = y.isNegative)
    (magnitude : x.magnitude = y.magnitude) : x = y := by
  obtain ⟨a⟩ := x
  obtain ⟨b⟩ := y
  have ha := a.toNat_lt
  have hb := b.toNat_lt
  have above : 0x80000000 ≤ a.toNat ↔ 0x80000000 ≤ b.toNat := decide_eq_decide.mp sign
  have low : a.toNat % 0x80000000 = b.toNat % 0x80000000 := magnitude
  rw [UInt32.toNat_inj.mp (by omega : a.toNat = b.toNat)]

/-- Rounding to the nearest number, with the sign that is given, leaves no choice. -/
theorem IsNearest.unique {q : ℚ} {x y : Binary32} (hx : IsNearest q x) (hy : IsNearest q y)
    (sign : x.isNegative = y.isNegative) : x = y :=
  ext_of_sign sign (hx.magnitude_unique hy)

end Binary32
end ColorLowering
