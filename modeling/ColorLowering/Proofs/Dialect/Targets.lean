import ColorLowering.Aggregate.Assignments
import ColorLowering.Aggregate.Braces

/-!
# Targets that differ in their dialect

Types are spelled and aggregates laid out alike in both dialects. Only structs and containers are
declared or given a first value differently.
-/
namespace ColorLowering
namespace Target

structure Akin (t t' : Target) : Prop where
  precision : t.precision = t'.precision
  vectorNamespace : t.vectorNamespace = t'.vectorNamespace

namespace Akin

theorem refl (t : Target) : t.Akin t := ⟨rfl, rfl⟩

theorem of_eq {t t' : Target} (h : t = t') : t.Akin t' := h ▸ .refl t

variable {t t' : Target}

section
variable (h : t.Akin t')
include h

theorem scalarType : t.scalarType = t'.scalarType := congrArg Precision.scalarType h.precision

theorem scalarSpelling : t.scalarSpelling = t'.scalarSpelling := by
  funext s
  cases s <;> simp only [Target.scalarSpelling, h.scalarType]

theorem arrayForm : t.arrayForm = t'.arrayForm := by
  funext elem size inContainer
  simp only [Target.arrayForm, floatVector, intVector, matrix, h.precision, h.vectorNamespace,
    h.scalarType]

theorem nativeSpelling? : t.nativeSpelling? = t'.nativeSpelling? := by
  funext ty
  simp only [Target.nativeSpelling?, arrayForm?, h.arrayForm]

theorem isNative : t.isNative = t'.isNative := by
  funext ty
  rw [Target.isNative, h.nativeSpelling?, Target.isNative]

theorem spell : (ty : Ty) → (inContainer : Bool) → t.spell ty inContainer = t'.spell ty inContainer
  | .void, _ => rfl
  | .scalar s, _ => by simp only [Target.spell, h.scalarSpelling]
  | .string, _ => rfl
  | .struct _ _, _ => rfl
  | .array elem size, inContainer => by simp only [Target.spell, h.arrayForm, spell elem true]

theorem spelling : t.spelling = t'.spelling := by
  funext ty
  rw [Target.spelling, h.spell, Target.spelling]

theorem shape : t.shape = t'.shape := by
  funext ty
  cases ty <;> simp only [Target.shape, h.arrayForm]

theorem conversion : t.conversion = t'.conversion := by
  funext s
  cases s <;> simp only [Target.conversion, h.scalarSpelling]

theorem cast : t.cast = t'.cast := by
  funext wanted given text
  simp only [Target.cast, h.conversion]

end

mutual
theorem braces (h : t.Akin t') : (ty : Ty) → t.braces ty = t'.braces ty
  | .void | .scalar _ | .string => by simp only [Target.braces]
  | .array elem size => by simp only [Target.braces, h.arrayForm, braces h elem]
  | .struct _ members => by simp only [Target.braces, bracesMembers h members]

theorem bracesMembers (h : t.Akin t') :
    (members : List (String × Ty)) → t.bracesMembers members = t'.bracesMembers members
  | [] => by simp only [Target.bracesMembers]
  | (_, ty) :: rest => by simp only [Target.bracesMembers, braces h ty, bracesMembers h rest]
end

mutual
theorem fills (h : t.Akin t') :
    (ty : Ty) → ∀ path position, t.fills ty path position = t'.fills ty path position
  | .void, _, _ | .scalar _, _, _ | .string, _, _ => by simp only [Target.fills]
  | .array elem size, _, _ => by simp only [Target.fills, h.arrayForm, fills h elem]
  | .struct _ members, _, _ => by simp only [Target.fills, fillsMembers h members]

theorem fillsMembers (h : t.Akin t') : (members : List (String × Ty)) →
    ∀ path, t.fillsMembers members path = t'.fillsMembers members path
  | [], _ => by simp only [Target.fillsMembers]
  | (_, ty) :: rest, _ => by simp only [Target.fillsMembers, fills h ty, fillsMembers h rest]
end

section
variable (h : t.Akin t')
include h

theorem fillStatements : t.fillStatements = t'.fillStatements := by
  funext ty root
  rw [Target.fillStatements, h.fills, Target.fillStatements]

theorem strategy? {ty : Ty} (hty : t.shape ty ≠ .aggregate) : t.strategy? ty = t'.strategy? ty := by
  rw [Target.strategy?, Target.strategy?, ← h.shape]
  cases hshape : t.shape ty with
  | direct => rfl
  | constructible => rfl
  | aggregate => exact absurd hshape hty

theorem declare {ty : Ty} (hty : t.shape ty ≠ .aggregate) (name : String) (mode : DeclMode) :
    t.declare name ty mode = t'.declare name ty mode := by
  have qualifiers : t.qualifiers ty mode = t'.qualifiers ty mode := by
    cases ty with
    | struct name members => exact absurd rfl hty
    | array elem size =>
        rw [Target.shape] at hty
        rw [Target.qualifiers, Target.qualifiers, ← h.arrayForm]
        split <;> simp_all
    | _ => rfl
  rw [Target.declare, Target.declare, ← h.spell, ← qualifiers, ← h.strategy? hty]

theorem declare_plain (name : String) (ty : Ty) :
    (t.declare name ty .plain).text = (t'.declare name ty .plain).text := by
  have qualifiers : t.qualifiers ty .plain = t'.qualifiers ty .plain := by
    cases ty with
    | array elem size =>
        rw [Target.qualifiers, Target.qualifiers, ← h.arrayForm]
        split <;> simp [DeclMode.plain]
    | _ => rfl
  rw [Target.declare, Target.declare, ← h.spell, ← qualifiers]

end
end Akin

end Target
end ColorLowering
