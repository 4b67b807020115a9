import ColorLowering.Ty.Spelling

/-!
# Spellings at every depth

Whether an array is native depends on nothing but the array. One that is not is a container inside a
container, and elsewhere too unless it is a raw array there. How a type is spelled, what follows a
declared name and how the type takes its first value all come from that.
-/
namespace ColorLowering

namespace Ty

def isVectorOrMatrix : Ty → Bool
  | .array (.scalar .float) size => 2 ≤ size && size ≤ 4
  | .array (.scalar .int) size => 2 ≤ size && size ≤ 4
  | .array (.array (.scalar .float) inner) size => inner == size && 3 ≤ size && size ≤ 4
  | _ => false

/-- How many levels of arrays there are, the outermost first, before a native type or one that is no
array, and that type. -/
def nesting : Ty → Nat × Ty
  | .array elem size =>
    if isVectorOrMatrix (.array elem size) then (0, .array elem size)
    else (elem.nesting.1 + 1, elem.nesting.2)
  | ty => (0, ty)

end Ty

namespace Target

def coreText (t : Target) : Ty → String
  | .void => "void"
  | .scalar s => t.scalarSpelling s
  | .string => "std::string"
  | .struct name _ => Text.unqualified name
  | .array (.scalar .float) size => t.floatVector size
  | .array (.scalar .int) size => t.intVector size
  | .array _ size => t.matrix size

def inContainers (levels : Nat) (text : String) : String :=
  String.join (List.replicate levels "std::vector< ") ++ text ++
    String.join (List.replicate levels " >")

theorem inContainers_zero (text : String) : inContainers 0 text = text := by
  simp [inContainers]

theorem inContainers_succ (levels : Nat) (text : String) :
    inContainers (levels + 1) text = "std::vector< " ++ inContainers levels text ++ " >" := by
  have closing : String.join (List.replicate (levels + 1) " >") =
      String.join (List.replicate levels " >") ++ " >" := by
    rw [List.replicate_succ', String.join_append]
    rfl
  rw [inContainers, inContainers, closing, List.replicate_succ, String.join_cons]
  simp only [String.append_assoc]

variable (t : Target) {elem : Ty} {size : Nat}

theorem isVectorOrMatrix_iff {ty : Ty} : ty.isVectorOrMatrix ↔
    (∃ n, (2 ≤ n ∧ n ≤ 4) ∧ (ty = .array (.scalar .float) n ∨ ty = .array (.scalar .int) n)) ∨
      ∃ n, (3 ≤ n ∧ n ≤ 4) ∧ ty = .array (.array (.scalar .float) n) n := by
  constructor
  · intro h
    unfold Ty.isVectorOrMatrix at h
    split at h
    · exact .inl ⟨_, by simpa using h, .inl rfl⟩
    · exact .inl ⟨_, by simpa using h, .inr rfl⟩
    · simp only [Bool.and_eq_true, beq_iff_eq, decide_eq_true_eq, and_assoc] at h
      obtain ⟨rfl, hsize⟩ := h
      exact .inr ⟨_, hsize, rfl⟩
    · cases h
  · rintro (⟨n, hn, rfl | rfl⟩ | ⟨n, hn, rfl⟩) <;> simp [Ty.isVectorOrMatrix, hn]

inductive LowersArray (t : Target) (elem : Ty) (size : Nat) : Prop where
  | native (h : (Ty.array elem size).isVectorOrMatrix) (shape : NativeShape)
    (form : ∀ inContainer,
      t.arrayForm elem size inContainer = .native (t.coreText (.array elem size)) shape)
  | raw (h : ¬(Ty.array elem size).isVectorOrMatrix) (scalar : String)
    (outside : t.arrayForm elem size false = .raw scalar size)
    (inside : t.arrayForm elem size true = .container elem)
  | container (h : ¬(Ty.array elem size).isVectorOrMatrix)
    (form : ∀ inContainer, t.arrayForm elem size inContainer = .container elem)

theorem lowersArray_flat {t : Target} {elem : Ty} {size : Nat} {vector scalar : String}
    (h : (Ty.array elem size).isVectorOrMatrix ↔ 2 ≤ size ∧ size ≤ 4)
    (form : ∀ inContainer,
      t.arrayForm elem size inContainer = flatArrayForm vector scalar elem size inContainer)
    (text : t.coreText (.array elem size) = vector) : t.LowersArray elem size := by
  by_cases hsize : 2 ≤ size ∧ size ≤ 4
  · refine .native (h.mpr hsize) (.vector size) fun inContainer => ?_
    rw [form, flatArrayForm, if_pos hsize, text]
  · by_cases hempty : size = 0
    · refine .container (mt h.mp hsize) fun inContainer => ?_
      rw [form, flatArrayForm, if_neg hsize, if_pos (.inl hempty)]
    · refine .raw (mt h.mp hsize) scalar ?_ ?_
      · rw [form, flatArrayForm, if_neg hsize, if_neg (by simpa using hempty)]
      · rw [form, flatArrayForm, if_neg hsize, if_pos (.inr rfl)]

theorem lowersArray_rows (t : Target) (width size : Nat) :
    t.LowersArray (.array (.scalar .float) width) size := by
  have square : (Ty.array (.array (.scalar .float) width) size).isVectorOrMatrix ↔
      width = size ∧ (size = 3 ∨ size = 4) := by
    simp only [Ty.isVectorOrMatrix, Bool.and_eq_true, beq_iff_eq, decide_eq_true_eq]
    omega
  by_cases horder : width = size ∧ (size = 3 ∨ size = 4)
  · exact .native (square.mpr horder) (.matrix size) fun _ => if_pos horder
  · exact .container (mt square.mp horder) fun _ => if_neg horder

theorem lowersArray (t : Target) (elem : Ty) (size : Nat) : t.LowersArray elem size := by
  cases elem with
  | scalar s =>
      cases s with
      | float => exact lowersArray_flat (by simp [Ty.isVectorOrMatrix]) (fun _ => rfl) rfl
      | int => exact lowersArray_flat (by simp [Ty.isVectorOrMatrix]) (fun _ => rfl) rfl
      | _ => exact .container Bool.false_ne_true fun _ => rfl
  | array inner width =>
      cases inner with
      | scalar s =>
          cases s with
          | float => exact t.lowersArray_rows width size
          | _ => exact .container Bool.false_ne_true fun _ => rfl
      | _ => exact .container Bool.false_ne_true fun _ => rfl
  | _ => exact .container Bool.false_ne_true fun _ => rfl

theorem isNative_iff (t : Target) (ty : Ty) : t.isNative ty ↔ ty.isVectorOrMatrix := by
  cases ty with
  | array elem size =>
      rw [isNative, nativeSpelling?, arrayForm?]
      cases t.lowersArray elem size with
      | native h shape form => simp [form, h]
      | raw h scalar outside => simp [outside, h]
      | container h form => simp [form, h]
  | _ => simp [isNative, nativeSpelling?, arrayForm?, Ty.isVectorOrMatrix]

/-- A type that is native or no array is spelled alike in every place, with nothing after the
name. -/
theorem spell_core (t : Target) {ty : Ty}
    (h : ty.isVectorOrMatrix ∨ ∀ elem size, ty ≠ .array elem size) (inContainer : Bool) :
    t.spell ty inContainer = ⟨t.coreText ty, ""⟩ := by
  cases ty with
  | array elem size =>
      have hnative := h.resolve_right fun h => h elem size rfl
      cases t.lowersArray elem size with
      | native _ shape form => rw [spell, form]
      | raw h => exact absurd hnative h
      | container h => exact absurd hnative h
  | _ => simp [spell, coreText]

end Target

theorem Ty.core_nesting : (ty : Ty) →
    ty.nesting.2.isVectorOrMatrix ∨ ∀ elem size, ty.nesting.2 ≠ .array elem size
  | .void | .scalar _ | .string | .struct _ _ => .inr (by simp [nesting])
  | .array elem size => by
      rw [nesting]
      by_cases h : (Ty.array elem size).isVectorOrMatrix
      · rw [if_pos h]
        exact .inl h
      · rw [if_neg h]
        exact core_nesting elem

namespace Target

/-- Inside a container, and so away from declarations, an array that is not native is a container
again, down to what the type is an array of in the end. -/
theorem spell_inContainer (t : Target) : (ty : Ty) →
    t.spell ty true = ⟨inContainers ty.nesting.1 (t.coreText ty.nesting.2), ""⟩
  | .void | .scalar _ | .string | .struct _ _ => by
      simp [spell, Ty.nesting, coreText, inContainers_zero]
  | .array elem size => by
      have element := t.spell_inContainer elem
      have container (h : ¬(Ty.array elem size).isVectorOrMatrix)
          (form : t.arrayForm elem size true = .container elem) :
          t.spell (.array elem size) true =
            ⟨inContainers (elem.nesting.1 + 1) (t.coreText elem.nesting.2), ""⟩ := by
        rw [spell, form, inContainers_succ]
        simp only [element]
      cases t.lowersArray elem size with
      | native h shape form =>
          rw [Ty.nesting, if_pos h, inContainers_zero]
          exact t.spell_core (.inl h) true
      | raw h scalar _ inside =>
          rw [Ty.nesting, if_neg h]
          exact container h inside
      | container h form =>
          rw [Ty.nesting, if_neg h]
          exact container h (form true)

/-- The place of an array matters only if it is a raw array in a declaration. -/
theorem arrayForm?_cases (t : Target) (ty : Ty) :
    (t.arrayForm? ty true = t.arrayForm? ty false ∧
      ∀ scalar size, t.arrayForm? ty false ≠ some (.raw scalar size)) ∨
    ∃ elem size scalar, ty = .array elem size ∧ t.arrayForm? ty false = some (.raw scalar size) ∧
      t.arrayForm? ty true = some (.container elem) := by
  cases ty with
  | array elem size =>
      simp only [arrayForm?]
      cases t.lowersArray elem size with
      | native _ shape form => exact .inl (by simp [form])
      | raw _ scalar outside inside =>
          exact .inr ⟨elem, size, scalar, rfl, by rw [outside], by rw [inside]⟩
      | container _ form => exact .inl (by simp [form])
  | _ => exact .inl (by simp [arrayForm?])

theorem suffix_ne_empty_iff (t : Target) (ty : Ty) : (t.spell ty false).suffix ≠ "" ↔
    ∃ scalar size, t.arrayForm? ty false = some (.raw scalar size) := by
  cases ty with
  | array elem size =>
      cases t.lowersArray elem size with
      | native _ shape form => simp [spell, arrayForm?, form]
      | raw _ scalar outside => simp [spell, arrayForm?, outside]
      | container _ form => simp [spell, arrayForm?, form]
  | _ => simp [spell, arrayForm?]

theorem shape_eq_constructible_iff (t : Target) (ty : Ty) :
    t.shape ty = .constructible ↔ t.isNative ty ∨ ty = .string := by
  rw [isNative_iff]
  cases ty with
  | array elem size =>
      cases t.lowersArray elem size with
      | native h shape form => simp [Target.shape, form, h]
      | raw h scalar outside => simp [Target.shape, outside, h]
      | container h form => simp [Target.shape, form, h]
  | _ => simp [shape, Ty.isVectorOrMatrix]

theorem shape_eq_direct_iff (t : Target) (ty : Ty) : t.shape ty = .direct ↔
    (∃ scalar size, t.arrayForm? ty false = some (.raw scalar size)) ∨
      ty = .void ∨ ∃ s, ty = .scalar s := by
  cases ty with
  | array elem size =>
      cases t.lowersArray elem size with
      | native _ shape form => simp [Target.shape, arrayForm?, form]
      | raw _ scalar outside => simp [Target.shape, arrayForm?, outside]
      | container _ form => simp [Target.shape, arrayForm?, form]
  | _ => simp [shape, arrayForm?]

theorem shape_eq_aggregate_iff (t : Target) (ty : Ty) : t.shape ty = .aggregate ↔
    (∃ elem, t.arrayForm? ty false = some (.container elem)) ∨
      ∃ name members, ty = .struct name members := by
  cases ty with
  | array elem size =>
      cases t.lowersArray elem size with
      | native _ shape form => simp [Target.shape, arrayForm?, form]
      | raw _ scalar outside => simp [Target.shape, arrayForm?, outside]
      | container _ form => simp [Target.shape, arrayForm?, form]
  | _ => simp [shape, arrayForm?]

/-- How a type is spelled, what may follow the name that it declares, and how it takes its first
value. -/
structure SpellsCoherently (t : Target) (ty : Ty) : Prop where
  neverRaw : ∀ scalar size, t.arrayForm? ty true ≠ some (.raw scalar size)
  unchanged : (∀ scalar size, t.arrayForm? ty false ≠ some (.raw scalar size)) →
    t.arrayForm? ty true = t.arrayForm? ty false
  contained : ∀ scalar size, t.arrayForm? ty false = some (.raw scalar size) →
    ∃ elem, ty = .array elem size ∧ t.arrayForm? ty true = some (.container elem)
  suffix : (t.spell ty false).suffix ≠ "" ↔
    ∃ scalar size, t.arrayForm? ty false = some (.raw scalar size)
  noSuffix : (t.spell ty true).suffix = ""
  nested : t.spelling ty = inContainers ty.nesting.1 (t.coreText ty.nesting.2)
  core : (ty.nesting.2.isVectorOrMatrix ∨ ∀ elem size, ty.nesting.2 ≠ .array elem size) ∧
    ∀ inContainer, t.spell ty.nesting.2 inContainer = ⟨t.coreText ty.nesting.2, ""⟩
  native : t.isNative ty ↔
    (∃ n, (2 ≤ n ∧ n ≤ 4) ∧ (ty = .array (.scalar .float) n ∨ ty = .array (.scalar .int) n)) ∨
      ∃ n, (3 ≤ n ∧ n ≤ 4) ∧ ty = .array (.array (.scalar .float) n) n
  constructible : t.shape ty = .constructible ↔ t.isNative ty ∨ ty = .string
  direct : t.shape ty = .direct ↔
    (∃ scalar size, t.arrayForm? ty false = some (.raw scalar size)) ∨
      ty = .void ∨ ∃ s, ty = .scalar s
  aggregate : t.shape ty = .aggregate ↔
    (∃ elem, t.arrayForm? ty false = some (.container elem)) ∨
      ∃ name members, ty = .struct name members

/-- Spelling and lowering agree on every type, however it nests: what an array is inside a container
differs from what it is elsewhere for raw arrays alone, which alone have a suffix; away from
declarations no suffix is lost, since the levels of arrays that are not native are containers around
what is left; and whether a type is native and what shape it has follow from the same cases. -/
theorem spells_coherently (t : Target) (ty : Ty) : t.SpellsCoherently ty where
  neverRaw scalar size := by
    obtain ⟨hsame, hraw⟩ | ⟨elem, size', scalar', -, -, hinside⟩ := t.arrayForm?_cases ty
    · rw [hsame]
      exact hraw scalar size
    · simp [hinside]
  unchanged hraw := by
    obtain ⟨hsame, -⟩ | ⟨elem, size, scalar, -, houtside, -⟩ := t.arrayForm?_cases ty
    · exact hsame
    · exact absurd houtside (hraw scalar size)
  contained scalar size h := by
    obtain ⟨-, hraw⟩ | ⟨elem, size', scalar', hty, houtside, hinside⟩ := t.arrayForm?_cases ty
    · exact absurd h (hraw scalar size)
    · rw [h, Option.some.injEq, ArrayForm.raw.injEq] at houtside
      exact ⟨elem, by rw [hty, houtside.2], hinside⟩
  suffix := t.suffix_ne_empty_iff ty
  noSuffix := by rw [t.spell_inContainer]
  nested := by rw [spelling, t.spell_inContainer]
  core := ⟨ty.core_nesting, t.spell_core ty.core_nesting⟩
  native := (t.isNative_iff ty).trans isVectorOrMatrix_iff
  constructible := t.shape_eq_constructible_iff ty
  direct := t.shape_eq_direct_iff ty
  aggregate := t.shape_eq_aggregate_iff ty

end Target
end ColorLowering
