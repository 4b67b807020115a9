/-!
# Tables

A table is its look-up function, so two tables that answer alike are equal, whatever was entered in
which order.
-/
namespace ColorLowering

@[ext] structure Table (α β : Type) where
  get? : α → Option β

namespace Table

variable {α β : Type} [DecidableEq α]

def empty : Table α β := ⟨fun _ => none⟩

/-- The last entry for a key counts. -/
def insert (t : Table α β) (key : α) (value : β) : Table α β :=
  ⟨fun k => if k = key then some value else t.get? k⟩

def contains (t : Table α β) (key : α) : Bool := (t.get? key).isSome

omit [DecidableEq α] in
@[simp] theorem get?_empty (k : α) : (empty : Table α β).get? k = none := rfl

theorem get?_insert (t : Table α β) (key k : α) (value : β) :
    (t.insert key value).get? k = if k = key then some value else t.get? k := rfl

theorem get?_insert_of_ne {t : Table α β} {key k : α} {value : β} (h : k ≠ key) :
    (t.insert key value).get? k = t.get? k := by
  rw [get?_insert, if_neg h]

@[simp] theorem get?_insert_self (t : Table α β) (key : α) (value : β) :
    (t.insert key value).get? key = some value := by simp [insert]

omit [DecidableEq α] in
@[simp] theorem contains_empty (k : α) : (empty : Table α β).contains k = false := rfl

@[simp] theorem contains_insert (t : Table α β) (key k : α) (value : β) :
    (t.insert key value).contains k = (decide (k = key) || t.contains k) := by
  by_cases h : k = key <;> simp [contains, get?_insert, h]

omit [DecidableEq α] in
theorem contains_iff {t : Table α β} {k : α} : t.contains k = true ↔ ∃ v, t.get? k = some v :=
  Option.isSome_iff_exists

end Table
end ColorLowering
