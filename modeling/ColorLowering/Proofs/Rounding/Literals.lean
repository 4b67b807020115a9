import ColorLowering.Proofs.Reading.Floating

/-!
# Literals round to their numbers

The literal of a finite number is read as the shortest decimal of the number, to which the number is
nearest. Rounding has one result, so a literal belongs to one number only.
-/
namespace ColorLowering
namespace Binary32

/-- A floating literal, with a minus sign or without, that rounds to `x`. -/
def Denotes (text : String) (x : Binary32) : Prop :=
  ∃ d : Decimal, Cpp.signedFloating? text.toList = some (x.isNegative, d) ∧ IsNearest d.value x

theorem Denotes.unique {text : String} {x y : Binary32} (hx : Denotes text x)
    (hy : Denotes text y) : x = y := by
  obtain ⟨d, hd, nearX⟩ := hx
  obtain ⟨e, he, nearY⟩ := hy
  rw [hd] at he
  obtain ⟨sign, rfl⟩ := Prod.mk.inj (Option.some.inj he)
  exact nearX.unique nearY sign

variable {x : Binary32}

theorem magnitude_lt_of_isFinite (finite : x.isFinite = true) : x.magnitude < infinite :=
  decide_eq_true_iff.mp finite

theorem isNaN_of_isFinite (finite : x.isFinite = true) : x.isNaN = false :=
  isNaN_eq_false.mpr (magnitude_lt_of_isFinite finite).le

theorem isInfinite_of_isFinite (finite : x.isFinite = true) : x.isInfinite = false :=
  decide_eq_false_iff_not.mpr (magnitude_lt_of_isFinite finite).ne

theorem floatLiteral_finite (finite : x.isFinite = true) : x.floatLiteral = x.finiteText := by
  rw [floatLiteral, isNaN_of_isFinite finite, isInfinite_of_isFinite finite]
  rfl

theorem halfLiteral_finite (finite : x.isFinite = true) :
    x.halfLiteral = "half( " ++ x.floatLiteral ++ " )" := by
  rw [halfLiteral, isNaN_of_isFinite finite, isInfinite_of_isFinite finite,
    floatLiteral_finite finite]
  rfl

/-- Without its sign, the literal is read as a decimal that the number is nearest to. -/
theorem isFloating_unsignedChars (numeric : x.isNaN = false) :
    ∃ value, Cpp.IsFloating x.unsignedChars value ∧ IsNearest value x := by
  unfold unsignedChars
  by_cases hzero : x.isZero = true
  · have zero : x.size = 0 := by
      rw [size_eq_sizeAt, of_decide_eq_true hzero]
      norm_num [sizeAt]
    rw [if_pos hzero]
    exact ⟨x.size, ⟨⟨0, -1⟩, by decide, by rw [zero, Decimal.value]; norm_num⟩,
      isNearest_size numeric⟩
  · have positive : 0 < x.magnitude := by
      rw [isZero, decide_eq_true_iff] at hzero
      omega
    have nearest := isNearest_shortest numeric positive
    rw [if_neg hzero]
    split
    · exact ⟨_, Cpp.isFloating_positional x.shortest, nearest⟩
    · exact ⟨_, Cpp.isFloating_scientific x.shortest, nearest⟩

theorem point_or_letter_mem_unsignedChars (x : Binary32) :
    '.' ∈ x.unsignedChars ∨ 'e' ∈ x.unsignedChars := by
  unfold unsignedChars
  split
  · exact .inl (by decide)
  · split
    · exact .inl (Cpp.point_mem_positional x.shortest)
    · exact .inr (Cpp.letter_mem_scientific x.shortest)

theorem finiteText_toList (x : Binary32) :
    x.finiteText.toList = (if x.isNegative then ['-'] else []) ++ x.unsignedChars := by
  rw [finiteText, String.toList_ofList]
  split <;> rfl

theorem signedFloating?_finiteText {d : Decimal} (h : Cpp.floating? x.unsignedChars = some d) :
    Cpp.signedFloating? x.finiteText.toList = some (x.isNegative, d) := by
  rw [finiteText_toList]
  cases hsign : x.isNegative with
  | true =>
      rw [if_pos rfl, List.singleton_append, Cpp.signedFloating?, if_pos rfl, h]
      rfl
  | false =>
      obtain ⟨c, rest, hchars, hc⟩ := (Cpp.isNumber_unsignedChars x).first
      have unsigned : c ≠ '-' := fun hminus => absurd hc (by rw [hminus]; decide)
      rw [if_neg Bool.false_ne_true, List.nil_append, hchars, Cpp.signedFloating?, if_neg unsigned,
        ← hchars, h]
      rfl

theorem denotes_floatLiteral (finite : x.isFinite = true) : Denotes x.floatLiteral x := by
  obtain ⟨value, ⟨d, hd, rfl⟩, nearest⟩ := isFloating_unsignedChars (isNaN_of_isFinite finite)
  rw [floatLiteral_finite finite]
  exact ⟨d, signedFloating?_finiteText hd, nearest⟩

/-- The literal of a finite number is a floating literal, never a whole number, which rounds to the
number and to nothing else. A half is the same literal in a conversion. So two numbers never have
one literal. -/
theorem literals_round_to_their_numbers (x : Binary32) (finite : x.isFinite = true) :
    (∀ y, Denotes x.floatLiteral y ↔ y = x) ∧
      ('.' ∈ x.floatLiteral.toList ∨ 'e' ∈ x.floatLiteral.toList) ∧
      x.halfLiteral = "half( " ++ x.floatLiteral ++ " )" ∧
      ∀ y : Binary32, y.isFinite = true → y.floatLiteral = x.floatLiteral → y = x := by
  have denoted := denotes_floatLiteral finite
  refine ⟨fun y => ⟨fun h => h.unique denoted, fun h => h ▸ denoted⟩, ?_,
    halfLiteral_finite finite, ?_⟩
  · rw [floatLiteral_finite finite, finiteText_toList, List.mem_append, List.mem_append]
    exact (point_or_letter_mem_unsignedChars x).imp .inr .inr
  · intro y finiteY same
    have denotedY := denotes_floatLiteral finiteY
    rw [same] at denotedY
    exact denotedY.unique denoted

theorem tenth_denoted : (⟨0x3dcccccd⟩ : Binary32).isFinite = true ∧ Denotes "0.1" ⟨0x3dcccccd⟩ := by
  have finite : (⟨0x3dcccccd⟩ : Binary32).isFinite = true := by decide
  have text : (⟨0x3dcccccd⟩ : Binary32).floatLiteral = "0.1" := by decide +kernel
  have denoted := (literals_round_to_their_numbers ⟨0x3dcccccd⟩ finite).1 ⟨0x3dcccccd⟩
  rw [text] at denoted
  exact ⟨finite, denoted.mpr rfl⟩

end Binary32
end ColorLowering
