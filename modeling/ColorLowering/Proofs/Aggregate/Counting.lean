import ColorLowering.Ty.Basic

/-!
# Counting leaves in machine words

The leaves of a type are counted in machine words, array by array and member by member, so there is
a count only while every product and sum on the way fits. A type that no element is left of can have
none: what is counted first is one element.
-/
namespace ColorLowering

namespace Ty

/-- What is met when arrays and structs are taken apart, the type itself first. -/
inductive IsPart (part : Ty) : Ty → Prop where
  | whole : IsPart part part
  | element {elem : Ty} (size : Nat) (h : IsPart part elem) : IsPart part (.array elem size)
  | member {name : String} {members : List (String × Ty)} {m : String × Ty} (hm : m ∈ members)
    (h : IsPart part m.2) : IsPart part (.struct name members)

theorem inWord?_eq_some {n count : Nat} : inWord? n = some count ↔ n < wordSize ∧ n = count := by
  rw [inWord?, Option.ite_none_right_eq_some, Option.some.injEq]

/-- The leaves of every part can be counted in a machine word. -/
def Countable (ty : Ty) : Prop := ∀ part, IsPart part ty → part.leafCount < wordSize

theorem countable_array {elem : Ty} {size : Nat} :
    (array elem size).Countable ↔ elem.Countable ∧ elem.leafCount * size < wordSize := by
  constructor
  · intro h
    exact ⟨fun part hpart => h part (.element size hpart), by simpa [leafCount] using h _ .whole⟩
  · rintro ⟨helem, hwhole⟩ part hpart
    cases hpart with
    | whole => simpa [leafCount] using hwhole
    | element _ hpart => exact helem part hpart

theorem countable_struct {name : String} {members : List (String × Ty)} :
    (struct name members).Countable ↔
      (∀ m ∈ members, m.2.Countable) ∧ leafCountMembers members < wordSize := by
  constructor
  · intro h
    exact ⟨fun m hm part hpart => h part (.member hm hpart), by simpa [leafCount] using h _ .whole⟩
  · rintro ⟨hmembers, hwhole⟩ part hpart
    cases hpart with
    | whole => simpa [leafCount] using hwhole
    | member hm hpart => exact hmembers _ hm part hpart

mutual
/-- The count in machine words is the number of leaves, and there is one just where every part's
leaves can be counted so. -/
theorem leafCount?_eq_some : (ty : Ty) → ∀ count,
    ty.leafCount? = some count ↔ ty.Countable ∧ ty.leafCount = count
  | .void, count | .scalar _, count | .string, count => by
    have single (ty : Ty) (hone : ty.leafCount = 1) (hpart : ∀ part, IsPart part ty → part = ty) :
        ty.Countable := by
      intro part h
      rw [hpart part h, hone]
      decide
    simp only [leafCount?, leafCount, Option.some.injEq]
    exact (and_iff_right (single _ rfl fun part h => by cases h; rfl)).symm
  | .array elem size, count => by
    simp only [leafCount?, Option.bind_eq_bind, Option.bind_eq_some_iff, inWord?_eq_some,
      leafCount?_eq_some elem, countable_array, leafCount]
    constructor
    · rintro ⟨_, ⟨helem, rfl⟩, hwhole, rfl⟩
      exact ⟨⟨helem, hwhole⟩, rfl⟩
    · rintro ⟨⟨helem, hwhole⟩, rfl⟩
      exact ⟨_, ⟨helem, rfl⟩, hwhole, rfl⟩
  | .struct _ members, count => by
    rw [leafCount?, leafCountMembers?_eq_some members, countable_struct, leafCount]

theorem leafCountMembers?_eq_some : (members : List (String × Ty)) → ∀ count,
    leafCountMembers? members = some count ↔
      ((∀ m ∈ members, m.2.Countable) ∧ leafCountMembers members < wordSize) ∧
        leafCountMembers members = count
  | [], count => by simp [leafCountMembers?, leafCountMembers, wordSize]
  | (_, ty) :: rest, count => by
    simp only [leafCountMembers?, Option.bind_eq_bind, Option.bind_eq_some_iff, inWord?_eq_some,
      leafCount?_eq_some ty, leafCountMembers?_eq_some rest, List.forall_mem_cons,
      leafCountMembers]
    constructor
    · rintro ⟨_, ⟨hty, rfl⟩, _, ⟨⟨hrest, -⟩, rfl⟩, hwhole, rfl⟩
      exact ⟨⟨⟨hty, hrest⟩, hwhole⟩, rfl⟩
    · rintro ⟨⟨⟨hty, hrest⟩, hwhole⟩, rfl⟩
      exact ⟨_, ⟨hty, rfl⟩, _, ⟨⟨hrest, by omega⟩, rfl⟩, hwhole, rfl⟩
end

theorem leafCount_of_leafCount? {ty : Ty} {count : Nat} (h : ty.leafCount? = some count) :
    ty.leafCount = count :=
  ((ty.leafCount?_eq_some count).mp h).2

/-- An array of no elements has no leaf, but one of its elements has too many. -/
example : (array (array (array (.scalar .int) (2 ^ 32)) (2 ^ 32)) 0).leafCount = 0 ∧
    (array (array (array (.scalar .int) (2 ^ 32)) (2 ^ 32)) 0).leafCount? = none := by
  decide

end Ty
end ColorLowering
