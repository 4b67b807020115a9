import ColorLowering.Store.Interned
import Mathlib.Data.List.Basic
import Mathlib.Data.List.Induction

/-!
# Interned data in order

The data stand in the order of their first occurrence, and the table has the position of each of
them and of nothing else. Each datum that is interned keeps this, new or not.
-/
namespace ColorLowering

section
variable {α : Type} [DecidableEq α] {as : List α} {a : α}

theorem eraseDups_concat (as : List α) (a : α) :
    (as ++ [a]).eraseDups = if a ∈ as then as.eraseDups else as.eraseDups ++ [a] := by
  rw [List.eraseDups_append]
  by_cases h : a ∈ as <;> simp [List.removeAll, List.eraseDups_cons, h]

/-- What occurs first stays in its place. -/
theorem idxOf_eraseDups_append (h : a ∈ as) (later : List α) :
    (as ++ later).eraseDups.idxOf a = as.eraseDups.idxOf a := by
  rw [List.eraseDups_append, List.idxOf_append_of_mem (List.mem_eraseDups.mpr h)]

end

namespace Interned

variable {α : Type} [DecidableEq α] {t : Interned α} {as : List α} {a : α} {i : Nat}

/-- The data are those of the list, each once, and the table mirrors their positions. -/
structure Holds (t : Interned α) (as : List α) : Prop where
  items : t.items.toList = as.eraseDups
  mirrors : ∀ a i, t.positions.get? a = some i ↔ t.items[i]? = some a

theorem holds_empty : (empty : Interned α).Holds [] where
  items := rfl
  mirrors a i := by simp [empty]

theorem Holds.getElem?_items (h : t.Holds as) (i : Nat) : t.items[i]? = as.eraseDups[i]? := by
  rw [← h.items, Array.getElem?_toList]

theorem Holds.size_eq (h : t.Holds as) : t.items.size = as.eraseDups.length := by
  rw [← h.items, Array.length_toList]

theorem Holds.position_of_mem (h : t.Holds as) (ha : a ∈ as) :
    t.positions.get? a = some (as.eraseDups.idxOf a) := by
  rw [h.mirrors, h.getElem?_items]
  exact List.getElem?_idxOf (List.mem_eraseDups.mpr ha)

theorem Holds.mem_of_position (h : t.Holds as) (ha : t.positions.get? a = some i) : a ∈ as := by
  rw [h.mirrors, h.getElem?_items] at ha
  exact List.mem_eraseDups.mp (List.mem_of_getElem? ha)

theorem Holds.not_mem_of_position (h : t.Holds as) (ha : t.positions.get? a = none) : a ∉ as := by
  intro hmem
  rw [h.position_of_mem hmem] at ha
  cases ha

/-- A datum is found at its first occurrence, and left there if it is new. -/
theorem Holds.fst_intern (h : t.Holds as) (a : α) :
    (t.intern a).1 = (as ++ [a]).eraseDups.idxOf a := by
  rw [Interned.intern, eraseDups_concat]
  cases ha : t.positions.get? a with
  | some i =>
      have hmem := h.mem_of_position ha
      rw [h.position_of_mem hmem, Option.some.injEq] at ha
      rw [if_pos hmem, ha]
  | none =>
      have hnew := h.not_mem_of_position ha
      rw [if_neg hnew, List.idxOf_append_of_notMem (mt List.mem_eraseDups.mp hnew),
        List.idxOf_cons_self, Nat.add_zero, h.size_eq]

theorem Holds.snd_intern (h : t.Holds as) (a : α) : (t.intern a).2.Holds (as ++ [a]) := by
  rw [Interned.intern]
  cases ha : t.positions.get? a with
  | some i => exact ⟨by rw [eraseDups_concat, if_pos (h.mem_of_position ha), h.items], h.mirrors⟩
  | none =>
      refine ⟨?_, fun b i => ?_⟩
      · rw [eraseDups_concat, if_neg (h.not_mem_of_position ha), Array.toList_push, h.items]
      · rw [Table.get?_insert, Array.getElem?_push]
        have old := h.mirrors b i
        by_cases hb : b = a <;> by_cases hi : i = t.items.size
        · simp [hb, hi]
        · rw [hb, ha] at old
          simpa [hb, hi, Ne.symm hi] using old
        · rw [hi, Array.getElem?_size] at old
          simpa [hb, hi, Ne.symm hb] using old
        · rwa [if_neg hb, if_neg hi]

theorem Holds.getElem?_intern (h : t.Holds as) (a : α) :
    (t.intern a).2.items[(t.intern a).1]? = some a := by
  rw [(h.snd_intern a).getElem?_items, h.fst_intern]
  exact List.getElem?_idxOf (List.mem_eraseDups.mpr List.mem_concat_self)

/-- Nothing is entered but the datum, and that only at the end. -/
theorem getElem?_intern_cases {b : α} (h : (t.intern a).2.items[i]? = some b) :
    t.items[i]? = some b ∨ i = t.items.size ∧ b = a := by
  rw [Interned.intern] at h
  cases ha : t.positions.get? a with
  | some j =>
      rw [ha] at h
      exact .inl h
  | none =>
      rw [ha, Array.getElem?_push] at h
      by_cases hi : i = t.items.size
      · rw [if_pos hi, Option.some.injEq] at h
        exact .inr ⟨hi, h.symm⟩
      · rw [if_neg hi] at h
        exact .inl h

theorem prefix_intern (t : Interned α) (a : α) :
    t.items.toList <+: (t.intern a).2.items.toList := by
  rw [Interned.intern]
  cases t.positions.get? a with
  | some i => exact List.prefix_rfl
  | none => simp

theorem holds_ofList (as : List α) : (ofList as).Holds as := by
  induction as using List.reverseRecOn with
  | nil => exact holds_empty
  | append_singleton as a ih =>
      rw [ofList, List.foldl_concat]
      exact ih.snd_intern a

end Interned
end ColorLowering
