import ColorLowering.Proofs.Reading.Values
import ColorLowering.Proofs.Rounding.Shortest

/-!
# Floating literals

A floating literal has digits before or after a point and maybe an exponent, or it has digits and an
exponent without a point. Without either it would be a whole number. Both forms in which a decimal
is written are read as a decimal of the same value.
-/
namespace ColorLowering
namespace Cpp

/-! ### The reader -/

def digits? (cs : List Char) : Option Nat :=
  if cs ≠ [] ∧ cs.all Char.isDigit then some (Nat.ofDigitChars 10 cs 0) else none

def power? : List Char → Option Int
  | [] => none
  | c :: cs =>
    if c = '-' then (digits? cs).map fun n => -n
    else if c = '+' then (digits? cs).map fun n => n
    else (digits? (c :: cs)).map fun n => n

def exponent? : List Char → Option Int
  | [] => none
  | c :: cs => if c = 'e' ∨ c = 'E' then power? cs else none

/-- After a point there may be no exponent. -/
def optionalExponent? (cs : List Char) : Option Int := if cs = [] then some 0 else exponent? cs

def floating? (cs : List Char) : Option Decimal :=
  let whole := cs.takeWhile Char.isDigit
  match cs.dropWhile Char.isDigit with
  | [] => none
  | c :: rest =>
    if c = '.' then
      let fraction := rest.takeWhile Char.isDigit
      if whole ++ fraction = [] then none
      else (optionalExponent? (rest.dropWhile Char.isDigit)).map fun e =>
        ⟨Nat.ofDigitChars 10 (whole ++ fraction) 0, e - fraction.length⟩
    else if whole = [] then none
    else (exponent? (c :: rest)).map fun e => ⟨Nat.ofDigitChars 10 whole 0, e⟩

def signedFloating? : List Char → Option (Bool × Decimal)
  | [] => none
  | c :: cs =>
    if c = '-' then (floating? cs).map fun d => (true, d)
    else (floating? (c :: cs)).map fun d => (false, d)

def IsFloating (cs : List Char) (value : ℚ) : Prop :=
  ∃ d : Decimal, floating? cs = some d ∧ d.value = value

/-! ### Parts of a literal -/

theorem digits?_toDigits (n : Nat) : digits? (Nat.toDigits 10 n) = some n := by
  have all : (Nat.toDigits 10 n).all Char.isDigit :=
    List.all_eq_true.mpr fun c hc => isDigit_of_mem_toDigits hc
  rw [digits?, if_pos ⟨Nat.toDigits_ne_nil, all⟩, Nat.ofDigitChars_ten_toDigits]

/-- An exponent is written as a whole number, and so it is read. -/
theorem power?_toString (e : Int) : power? (toString e).toList = some e := by
  cases e with
  | ofNat n =>
      have same : toString (Int.ofNat n) = toString n := rfl
      have chars : (toString (Int.ofNat n)).toList = Nat.toDigits 10 n := by
        rw [same]
        simp
      obtain ⟨c, rest, hdigits, hc, -⟩ := toDigits_cons n
      have minus : c ≠ '-' := fun h => absurd hc (by rw [h]; decide)
      have plus : c ≠ '+' := fun h => absurd hc (by rw [h]; decide)
      rw [chars, hdigits, power?, if_neg minus, if_neg plus, ← hdigits, digits?_toDigits]
      rfl
  | negSucc n =>
      have same : toString (Int.negSucc n) = "-" ++ toString (n + 1) := rfl
      have chars : (toString (Int.negSucc n)).toList = '-' :: Nat.toDigits 10 (n + 1) := by
        rw [same]
        simp
      rw [chars, power?, if_pos rfl, digits?_toDigits]
      rfl

section
variable {whole fraction tail : List Char}

theorem takeWhile_digits (hwhole : ∀ c ∈ whole, c.isDigit)
    (htail : ∀ c ∈ tail.head?, c.isDigit = false) :
    (whole ++ tail).takeWhile Char.isDigit = whole := by
  rw [List.takeWhile_append_of_pos hwhole]
  cases tail with
  | nil => exact List.append_nil whole
  | cons c rest =>
      rw [List.takeWhile_cons_of_neg (by simp [htail c rfl]), List.append_nil]

theorem dropWhile_digits (hwhole : ∀ c ∈ whole, c.isDigit)
    (htail : ∀ c ∈ tail.head?, c.isDigit = false) :
    (whole ++ tail).dropWhile Char.isDigit = tail := by
  rw [List.dropWhile_append_of_pos hwhole]
  cases tail with
  | nil => rfl
  | cons c rest => rw [List.dropWhile_cons_of_neg (by simp [htail c rfl])]

theorem not_digit_of_letter (power : List Char) :
    ∀ c ∈ ('e' :: power).head?, c.isDigit = false := by
  intro c hc
  cases hc
  rfl

theorem floating?_point (hsome : whole ≠ []) (hwhole : ∀ c ∈ whole, c.isDigit)
    (hfraction : ∀ c ∈ fraction, c.isDigit) (htail : ∀ c ∈ tail.head?, c.isDigit = false) :
    floating? (whole ++ '.' :: (fraction ++ tail)) = (optionalExponent? tail).map fun e =>
      ⟨Nat.ofDigitChars 10 (whole ++ fraction) 0, e - fraction.length⟩ := by
  have point : ∀ c ∈ ('.' :: (fraction ++ tail)).head?, c.isDigit = false := by
    intro c hc
    cases hc
    rfl
  have digits : whole ++ fraction ≠ [] := List.append_ne_nil_of_left_ne_nil hsome fraction
  rw [floating?, dropWhile_digits hwhole point, takeWhile_digits hwhole point]
  dsimp only
  rw [if_pos rfl, takeWhile_digits hfraction htail, dropWhile_digits hfraction htail,
    if_neg digits]

theorem floating?_exponent (hsome : whole ≠ []) (hwhole : ∀ c ∈ whole, c.isDigit)
    (power : List Char) : floating? (whole ++ 'e' :: power) =
      (power? power).map fun e => ⟨Nat.ofDigitChars 10 whole 0, e⟩ := by
  have letter := not_digit_of_letter power
  rw [floating?, dropWhile_digits hwhole letter, takeWhile_digits hwhole letter]
  dsimp only
  rw [if_neg (by decide), if_neg hsome, exponent?, if_pos (.inl rfl)]

end

/-! ### Decimals -/

/-- The digits around a point are a whole number that the fraction scales down. -/
theorem isFloating_point {whole fraction : List Char} (hsome : whole ≠ [])
    (hwhole : ∀ c ∈ whole, c.isDigit) (hfraction : ∀ c ∈ fraction, c.isDigit) {value : ℚ}
    (hvalue : Nat.ofDigitChars 10 (whole ++ fraction) 0 * 10 ^ (-fraction.length : Int) = value) :
    IsFloating (whole ++ '.' :: fraction) value := by
  have closed : ∀ c ∈ ([] : List Char).head?, c.isDigit = false := by simp
  have h := floating?_point hsome hwhole hfraction closed
  rw [List.append_nil] at h
  refine ⟨_, h, ?_⟩
  rw [← hvalue, ← Int.zero_sub]
  rfl

theorem toDigits_digits (n : Nat) : ∀ c ∈ Nat.toDigits 10 n, c.isDigit :=
  fun _ hc => isDigit_of_mem_toDigits hc

theorem zeros_digits (k : Nat) : ∀ c ∈ Decimal.zeros k, c.isDigit :=
  fun _ hc => mem_zeros hc

/-- The zero after the point is a digit more and a place more. -/
theorem isFloating_trailing (n k : Nat) :
    IsFloating (Nat.toDigits 10 n ++ Decimal.zeros k ++ ['.', '0']) (n * 10 ^ k) := by
  refine isFloating_point (List.append_ne_nil_of_left_ne_nil Nat.toDigits_ne_nil _)
    (List.forall_mem_append.mpr ⟨toDigits_digits n, zeros_digits k⟩) (by simp) ?_
  have shifted : Nat.ofDigitChars 10 (Nat.toDigits 10 n ++ Decimal.zeros k ++ ['0']) 0 =
      10 * (10 ^ k * n) := by
    rw [Nat.ofDigitChars_append, Nat.ofDigitChars_append, Nat.ofDigitChars_ten_toDigits,
      Decimal.zeros, Nat.ofDigitChars_replicate_zero]
    rfl
  rw [shifted, List.length_singleton]
  push_cast
  ring

theorem isFloating_inner (n k : Nat) (hk : k < (Nat.toDigits 10 n).length) :
    IsFloating ((Nat.toDigits 10 n).take ((Nat.toDigits 10 n).length - k) ++
      '.' :: (Nat.toDigits 10 n).drop ((Nat.toDigits 10 n).length - k)) (n * 10 ^ (-k : Int)) := by
  refine isFloating_point ?_ (fun c hc => toDigits_digits n c (List.mem_of_mem_take hc))
    (fun c hc => toDigits_digits n c (List.mem_of_mem_drop hc)) ?_
  · rw [ne_eq, List.take_eq_nil_iff]
    rintro (hnone | hnone)
    · omega
    · exact Nat.toDigits_ne_nil hnone
  · rw [List.take_append_drop, Nat.ofDigitChars_ten_toDigits, List.length_drop,
      Nat.sub_sub_self hk.le]

theorem isFloating_leading (n k : Nat) (hk : (Nat.toDigits 10 n).length ≤ k) :
    IsFloating ('0' :: '.' :: Decimal.zeros (k - (Nat.toDigits 10 n).length) ++ Nat.toDigits 10 n)
      (n * 10 ^ (-k : Int)) := by
  have unchanged : Nat.ofDigitChars 10
      (['0'] ++ (Decimal.zeros (k - (Nat.toDigits 10 n).length) ++ Nat.toDigits 10 n)) 0 = n := by
    rw [Nat.ofDigitChars_append, Nat.ofDigitChars_append, Decimal.zeros,
      Nat.ofDigitChars_replicate_zero]
    exact Nat.ofDigitChars_ten_toDigits
  have places : (Decimal.zeros (k - (Nat.toDigits 10 n).length) ++
      Nat.toDigits 10 n).length = k := by
    rw [List.length_append, Decimal.zeros, List.length_replicate, Nat.sub_add_cancel hk]
  exact isFloating_point (List.cons_ne_nil '0' []) (by simp)
    (List.forall_mem_append.mpr ⟨zeros_digits _, toDigits_digits n⟩) (by rw [unchanged, places])

/-- Wherever the point is put, the value is the same. -/
theorem isFloating_positional (d : Decimal) : IsFloating d.positional d.value := by
  unfold Decimal.positional Decimal.value
  dsimp only
  split
  · have power : (10 : ℚ) ^ d.exponent = 10 ^ d.exponent.toNat := by
      rw [← zpow_natCast, Int.toNat_of_nonneg (by assumption)]
    rw [power]
    exact isFloating_trailing d.digits d.exponent.toNat
  · have exponent : d.exponent = -((-d.exponent).toNat : Int) := by omega
    split
    · rw [congrArg (fun e : Int => (10 : ℚ) ^ e) exponent]
      exact isFloating_inner d.digits _ (by assumption)
    · rw [congrArg (fun e : Int => (10 : ℚ) ^ e) exponent]
      exact isFloating_leading d.digits _ (by omega)

/-- With one digit before the point, the exponent grows by the digits after it. -/
theorem isFloating_scientific (d : Decimal) : IsFloating d.scientific d.value := by
  obtain ⟨c, rest, hdigits, hc, hrest⟩ := toDigits_cons d.digits
  have lead : ∀ e ∈ [c], e.isDigit := fun e he => by rw [List.mem_singleton.mp he, hc]
  have same : Nat.ofDigitChars 10 ([c] ++ rest) 0 = d.digits := by
    rw [List.singleton_append, ← hdigits, Nat.ofDigitChars_ten_toDigits]
  by_cases hlone : rest = []
  · have chars : d.scientific = [c] ++ 'e' :: (toString d.exponent).toList := by
      simp [Decimal.scientific, hdigits, hlone]
    rw [hlone, List.append_nil] at same
    refine ⟨d, ?_, rfl⟩
    rw [chars, floating?_exponent (List.cons_ne_nil c []) lead, power?_toString, Option.map_some,
      same]
  · have chars : d.scientific = [c] ++ '.' :: (rest ++
        'e' :: (toString (d.exponent + (rest.length : Int))).toList) := by
      simp [Decimal.scientific, hdigits, hlone]
    refine ⟨d, ?_, rfl⟩
    rw [chars, floating?_point (List.cons_ne_nil c []) lead hrest (not_digit_of_letter _),
      optionalExponent?, if_neg (List.cons_ne_nil _ _), exponent?, if_pos (.inl rfl),
      power?_toString, Option.map_some, same, Int.add_sub_cancel]

theorem point_mem_positional (d : Decimal) : '.' ∈ d.positional := by
  unfold Decimal.positional
  dsimp only
  split
  · simp
  · split <;> simp

theorem letter_mem_scientific (d : Decimal) : 'e' ∈ d.scientific := by
  simp [Decimal.scientific]

end Cpp
end ColorLowering
