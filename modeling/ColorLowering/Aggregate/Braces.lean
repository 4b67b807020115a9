import ColorLowering.Aggregate.Leaves
import ColorLowering.Text.Lines
import ColorLowering.Ty.Declaration

/-!
# Initializer lists

A native vector or matrix is a constructor call over all its leaves; every other array and every
struct is a list in braces of its elements or members. A list of more than four items has one item
on a line.
-/
namespace ColorLowering

def inlineItems : Nat := 4

/-- Every row of an item is moved right by one indentation step. -/
def indentItem (item : String) : String :=
  "\n".intercalate ((Text.rows item.toList).map fun row => "    " ++ String.ofList row)

def bracedList (items : List String) : String :=
  if items.isEmpty then "\x7b\x7d"
  else if items.length ≤ inlineItems then "\x7b " ++ commaSeparated items ++ " \x7d"
  else "\x7b\n" ++ ",\n".intercalate (items.map indentItem) ++ "\n\x7d"

namespace Target

mutual
def braces (t : Target) : Ty → Leaves String
  | .array elem size =>
    match t.arrayForm elem size true with
    | .native spelling _ => do
      return spelling ++ parenthesized (commaSeparated (← Leaves.flat (.array elem size)))
    | _ => do return bracedList (← Leaves.repeated (fun _ => t.braces elem) 0 size)
  | .struct _ members => do return bracedList (← t.bracesMembers members)
  | _ => Leaves.take

def bracesMembers (t : Target) : List (String × Ty) → Leaves (List String)
  | [] => pure []
  | (_, ty) :: rest => do
    let first ← t.braces ty
    return first :: (← t.bracesMembers rest)
end

end Target
end ColorLowering
