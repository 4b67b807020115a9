import ColorLowering.Ty.Basic

/-!
# The leaves of an aggregate

An aggregate is laid out along its type while the texts of its leaves are taken one by one. A layout
has no result if it runs out of texts.
-/
namespace ColorLowering

abbrev Leaves (α : Type) := StateT (List String) Option α

namespace Leaves

def take : Leaves String := fun
  | [] => none
  | text :: rest => some (text, rest)

/-- One layout for each of `count` positions, counted from `start`. -/
def repeated {α : Type} (layout : Nat → Leaves α) (start count : Nat) : Leaves (List α) :=
  (List.range' start count).mapM layout

@[simp] theorem repeated_zero {α : Type} (layout : Nat → Leaves α) (start : Nat) :
    repeated layout start 0 = pure [] := by
  simp [repeated]

theorem repeated_succ {α : Type} (layout : Nat → Leaves α) (start count : Nat) :
    repeated layout start (count + 1) = do
      let first ← layout start
      return first :: (← repeated layout (start + 1) count) := by
  simp [repeated, List.range'_succ]

mutual
/-- The texts of all leaves, without the arrays and structs around them. -/
def flat : Ty → Leaves (List String)
  | .array elem size => do return (← repeated (fun _ => flat elem) 0 size).flatten
  | .struct _ members => flatMembers members
  | _ => do return [← take]

def flatMembers : List (String × Ty) → Leaves (List String)
  | [] => pure []
  | (_, ty) :: rest => do
    let first ← flat ty
    return first ++ (← flatMembers rest)
end

/-- The texts that a first layout takes, and what it leaves. -/
theorem append_eq_take_drop (width : Nat) (ts more : List String) :
    ts ++ more = ts.take width ++ (ts.drop width ++ more) := by
  rw [← List.append_assoc, List.take_append_drop]

end Leaves
end ColorLowering
