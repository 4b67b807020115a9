import ColorLowering.Table

/-!
# Interned data

Distinct data in the order of their first occurrence, and beside them a table with the position of
each, which finds again what was entered before.
-/
namespace ColorLowering

structure Interned (α : Type) where
  items : Array α
  positions : Table α Nat

namespace Interned

variable {α : Type} [DecidableEq α]

def empty : Interned α := ⟨#[], .empty⟩

/-- The position of the datum, which becomes the last one if it is new. -/
def intern (t : Interned α) (a : α) : Nat × Interned α :=
  match t.positions.get? a with
  | some i => (i, t)
  | none => (t.items.size, ⟨t.items.push a, t.positions.insert a t.items.size⟩)

/-- The data are entered one after the other. -/
def ofList (as : List α) : Interned α := as.foldl (fun t a => (t.intern a).2) empty

end Interned
end ColorLowering
