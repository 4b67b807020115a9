import ColorLowering.Aggregate.Leaves
import Mathlib.Data.List.Forall2

/-!
# What a layout takes

A layout of a type takes as many texts as the type has leaves. What it takes is put together from
what its parts take: nothing, one text, one part after another, or as many parts as an array has
elements. The arguments of a constructor are the texts as they come.
-/
namespace ColorLowering

namespace Leaves

variable {α β γ : Type}

/-- The layout takes `width` texts and leaves alone those that come after them; of fewer it makes
nothing. `Over` says how what it makes is made over the texts. -/
structure Consumes (layout : Leaves α) (width : Nat) (Over : α → List String → Prop) : Prop where
  short : ∀ ts, ts.length < width → layout.run ts = none
  exact : ∀ ts more, ts.length = width →
    ∃ a, layout.run (ts ++ more) = some (a, more) ∧ Over a ts

namespace Consumes

variable {Over : α → List String → Prop} {layout : Leaves α} {width : Nat}

theorem nothing (a : α) : Consumes (pure a) 0 fun b ts => b = a ∧ ts = [] where
  short _ hts := absurd hts (Nat.not_lt_zero _)
  exact _ _ hts := by
    obtain rfl := List.eq_nil_of_length_eq_zero hts
    exact ⟨a, rfl, rfl, rfl⟩

theorem one : Consumes take 1 fun text ts => ts = [text] where
  short _ hts := by
    obtain rfl := List.eq_nil_of_length_eq_zero (Nat.lt_one_iff.mp hts)
    rfl
  exact _ _ hts := by
    obtain ⟨text, rfl⟩ := List.length_eq_one_iff.mp hts
    exact ⟨text, rfl, rfl⟩

theorem imp {Over' : α → List String → Prop} (h : Consumes layout width Over)
    (hover : ∀ a ts, Over a ts → Over' a ts) : Consumes layout width Over' where
  short := h.short
  exact ts more hts := by
    obtain ⟨a, hrun, ha⟩ := h.exact ts more hts
    exact ⟨a, hrun, hover a ts ha⟩

theorem map (f : α → β) (h : Consumes layout width Over) :
    Consumes (do return f (← layout)) width fun b ts => ∃ a, f a = b ∧ Over a ts where
  short ts hts := by simp [h.short ts hts]
  exact ts more hts := by
    obtain ⟨a, hrun, ha⟩ := h.exact ts more hts
    exact ⟨f a, by simp [hrun], a, rfl, ha⟩

theorem both {Second : β → List String → Prop} {second : Leaves β} {more : Nat} (f : α → β → γ)
    (h : Consumes layout width Over) (hsecond : Consumes second more Second) :
    Consumes (do
      let a ← layout
      return f a (← second)) (width + more) fun c ts =>
        ∃ a b first rest, f a b = c ∧ first ++ rest = ts ∧ Over a first ∧ Second b rest where
  short ts hts := by
    by_cases hfirst : ts.length < width
    · simp [h.short ts hfirst]
    · obtain ⟨a, hrun, -⟩ := h.exact (ts.take width) (ts.drop width) (by simp; omega)
      rw [List.take_append_drop] at hrun
      simp [hrun, hsecond.short (ts.drop width) (by simp; omega)]
  exact ts others hts := by
    obtain ⟨a, hrun, ha⟩ := h.exact (ts.take width) (ts.drop width ++ others) (by simp; omega)
    obtain ⟨b, hrest, hb⟩ := hsecond.exact (ts.drop width) others (by simp; omega)
    refine ⟨f a b, ?_, a, b, _, _, rfl, List.take_append_drop width ts, ha, hb⟩
    rw [append_eq_take_drop width]
    simp [hrun, hrest]

theorem repeated {layout : Nat → Leaves α} (h : ∀ i, Consumes (layout i) width Over)
    (start count : Nat) :
    Consumes (Leaves.repeated layout start count) (width * count) fun items ts =>
      ∃ parts, List.Forall₂ Over items parts ∧ parts.flatten = ts := by
  induction count generalizing start with
  | zero =>
      rw [repeated_zero, Nat.mul_zero]
      refine (nothing []).imp ?_
      rintro items ts ⟨rfl, rfl⟩
      exact ⟨[], .nil, rfl⟩
  | succ n ih =>
      rw [repeated_succ, Nat.mul_succ, Nat.add_comm (width * n)]
      refine ((h start).both List.cons (ih (start + 1))).imp ?_
      rintro _ _ ⟨a, items, first, rest, rfl, rfl, ha, parts, hparts, rfl⟩
      exact ⟨first :: parts, .cons ha hparts, rfl⟩

end Consumes

mutual
/-- Taking a type apart element by element and member by member takes its leaves in order. -/
theorem consumes_flat : (ty : Ty) → Consumes (flat ty) ty.leafCount Eq
  | .void | .scalar _ | .string => by
      simp only [flat, Ty.leafCount]
      refine (Consumes.one.map fun text => [text]).imp ?_
      rintro _ _ ⟨text, rfl, rfl⟩
      rfl
  | .array elem size => by
      rw [flat, Ty.leafCount]
      refine ((Consumes.repeated (fun _ => consumes_flat elem) 0 size).map List.flatten).imp ?_
      rintro _ _ ⟨items, rfl, parts, hparts, rfl⟩
      rw [List.forall₂_eq_eq_eq] at hparts
      rw [hparts]
  | .struct _ members => by
      rw [flat, Ty.leafCount]
      exact consumes_flatMembers members

theorem consumes_flatMembers : (members : List (String × Ty)) →
    Consumes (flatMembers members) (Ty.leafCountMembers members) Eq
  | [] => by
      rw [flatMembers, Ty.leafCountMembers]
      refine (Consumes.nothing []).imp ?_
      rintro _ _ ⟨rfl, rfl⟩
      rfl
  | (_, ty) :: rest => by
      rw [flatMembers, Ty.leafCountMembers]
      refine ((consumes_flat ty).both (· ++ ·) (consumes_flatMembers rest)).imp ?_
      rintro _ _ ⟨_, _, first, others, rfl, rfl, rfl, rfl⟩
      rfl
end

theorem run_flat {ty : Ty} {ts : List String} (hts : ts.length = ty.leafCount)
    (more : List String) : (flat ty).run (ts ++ more) = some (ts, more) := by
  obtain ⟨_, hrun, rfl⟩ := (consumes_flat ty).exact ts more hts
  exact hrun

end Leaves
end ColorLowering
