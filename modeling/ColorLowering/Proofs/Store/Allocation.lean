import ColorLowering.Proofs.Store.History

/-!
# Allocation

Symbols, expressions, statements and modules are numbered in the order of their allocation, each
kind by itself. The lists in a side list lie end to end in that order, so no two of them overlap and
nothing is left between them.
-/
namespace ColorLowering

def Span.Covers (r : Span) (n : Nat) : Prop := r.start ≤ n ∧ n < r.start + r.length

namespace Store

/-! ### Numbers -/

inductive Kind where
  | symbol | expr | stmt | module
  deriving DecidableEq

def Operation.kind? : Operation → Option Kind
  | .symbol _ => some .symbol
  | .expr _ => some .expr
  | .stmt _ => some .stmt
  | .module .. => some .module
  | _ => none

def Identity.number? : Identity → Option (Kind × Nat)
  | .symbol id => some (.symbol, id.index)
  | .expr id => some (.expr, id.index)
  | .stmt id => some (.stmt, id.index)
  | .module id => some (.module, id.index)
  | _ => none

def count (s : Store) : Kind → Nat
  | .symbol => s.symbols.size
  | .expr => s.exprs.size
  | .stmt => s.stmts.size
  | .module => s.modules.size

def allocations (ops : List Operation) (k : Kind) : Nat := ops.countP (·.kind? = some k)

variable {s : Store} {op : Operation} {id : Identity} {ops : List Operation} {i j : Nat} {k : Kind}

theorem number?_perform (h : op.kind? = some k) :
    (s.perform op).1.number? = some (k, s.count k) := by
  cases op with
  | symbol | expr | stmt | module =>
      cases h
      rfl
  | _ => cases h

theorem count_perform (s : Store) (op : Operation) (k : Kind) :
    (s.perform op).2.count k = s.count k + allocations [op] k := by
  cases op <;> cases k <;>
    simp [perform, count, allocations, Operation.kind?, intern, internType, addSymbol, addExpr,
      addStmt, addExprList, addStmtList, addModule]

theorem count_after (ops : List Operation) (k : Kind) :
    (after ops).count k = allocations ops k := by
  induction ops using List.reverseRecOn with
  | nil => cases k <;> rfl
  | append_singleton ops op ih =>
      rw [after_concat, count_perform, ih, allocations, allocations, allocations,
        List.countP_append]

/-! ### Side lists -/

inductive Side where
  | exprs | stmts

def Identity.span? : Identity → Option (Side × Span)
  | .exprs r => some (.exprs, r)
  | .stmts r => some (.stmts, r)
  | _ => none

def sideLength (s : Store) : Side → Nat
  | .exprs => s.exprLists.size
  | .stmts => s.stmtLists.size

variable {side : Side} {r r' : Span}

/-- A list goes to the end of its side list; any other operation leaves the side list alone. -/
theorem side_cases (s : Store) (op : Operation) (side : Side) :
    (∃ r, (s.perform op).1.span? = some (side, r) ∧ r.start = s.sideLength side ∧
      (s.perform op).2.sideLength side = r.start + r.length) ∨
    (∀ r, (s.perform op).1.span? ≠ some (side, r)) ∧
      (s.perform op).2.sideLength side = s.sideLength side := by
  cases op with
  | exprList ids =>
      cases side with
      | exprs => exact .inl ⟨_, rfl, rfl, Span.size_append_list s.exprLists ids⟩
      | stmts => exact .inr ⟨nofun, rfl⟩
  | stmtList ids =>
      cases side with
      | exprs => exact .inr ⟨nofun, rfl⟩
      | stmts => exact .inl ⟨_, rfl, rfl, Span.size_append_list s.stmtLists ids⟩
  | _ => exact .inr ⟨nofun, by cases side <;> rfl⟩

theorem start_of_span? (h : (s.perform op).1.span? = some (side, r)) :
    r.start = s.sideLength side := by
  obtain ⟨r', hr', hstart, -⟩ | ⟨hnone, -⟩ := s.side_cases op side
  · rw [h, Option.some.injEq, Prod.mk.injEq] at hr'
    rw [hr'.2, hstart]
  · exact absurd h (hnone r)

theorem ReadsBack.within (h : s.ReadsBack op id) (hr : id.span? = some (side, r)) :
    r.start + r.length ≤ s.sideLength side := by
  cases h with
  | exprList h =>
      cases hr
      exact h.within
  | stmtList h =>
      cases hr
      exact h.within
  | _ => cases hr

/-- Of two lists the one that was added first ends where the other begins, or before. -/
theorem end_le_start {op' : Operation} {id' : Identity} (h : Answered ops i op id)
    (h' : Answered ops j op' id') (hij : i < j) (hr : id.span? = some (side, r))
    (hr' : id'.span? = some (side, r')) : r.start + r.length ≤ r'.start := by
  rw [← h'.answer] at hr'
  rw [start_of_span? hr']
  exact (h.readsBack hij).within hr

theorem Answered.concat (h : Answered ops i op id) (last : Operation) :
    Answered (ops ++ [last]) i op id := by
  have hi : i < ops.length := (List.getElem?_eq_some_iff.mp h.performed).1
  constructor
  · rw [List.getElem?_append_left hi, h.performed]
  · rw [List.take_append_of_le_length (Nat.le_of_lt hi), h.answer]

theorem answered_last (ops : List Operation) (op : Operation) :
    Answered (ops ++ [op]) ops.length op ((after ops).perform op).1 where
  performed := List.getElem?_concat_length
  answer := by rw [List.take_left' rfl]

/-- Every place of a side list is in one of the lists that were added. -/
theorem exists_covers {n : Nat} (hn : n < (after ops).sideLength side) :
    ∃ i op id r, Answered ops i op id ∧ id.span? = some (side, r) ∧ r.Covers n := by
  induction ops using List.reverseRecOn with
  | nil => cases side <;> cases hn
  | append_singleton ops op ih =>
      rw [after_concat] at hn
      have earlier (hn : n < (after ops).sideLength side) : ∃ i op' id r,
          Answered (ops ++ [op]) i op' id ∧ id.span? = some (side, r) ∧ r.Covers n := by
        obtain ⟨i, op', id, r, h, hr, hcovers⟩ := ih hn
        exact ⟨i, op', id, r, h.concat op, hr, hcovers⟩
      obtain ⟨r, hr, hstart, hlength⟩ | ⟨-, hsame⟩ := (after ops).side_cases op side
      · by_cases hold : n < (after ops).sideLength side
        · exact earlier hold
        · refine ⟨_, _, _, r, answered_last ops op, hr, ?_, ?_⟩
          · omega
          · omega
      · exact earlier (hsame ▸ hn)

/-- What was stored stays as it is, under the next number of its kind or at the end of its side
list. -/
structure AppendOnly (ops : List Operation) : Prop where
  dense : ∀ i op id k, Answered ops i op id → op.kind? = some k →
    id.number? = some (k, allocations (ops.take i) k)
  kept : ∀ i op id, Answered ops i op id → ∀ j, i < j → (after (ops.take j)).ReadsBack op id
  apart : ∀ i j op op' id id' side r r', Answered ops i op id → Answered ops j op' id' → i ≠ j →
    id.span? = some (side, r) → id'.span? = some (side, r') → ∀ n, ¬(r.Covers n ∧ r'.Covers n)
  covered : ∀ side n, n < (after ops).sideLength side ↔
    ∃ i op id r, Answered ops i op id ∧ id.span? = some (side, r) ∧ r.Covers n
  admitted : ∀ entry, (after ops).symbols.size < idCapacity →
    (after ops).tryAddSymbol entry = .ok ((after ops).addSymbol entry)

/-- However the operations on a store are interleaved: the symbols, expressions, statements and
modules are numbered one after the other; what is stored under a number, and the list that an answer
stands for, is read there at every later time; and the lists lie in their side lists without
overlapping and without leaving anything out. No symbol is refused as long as there are identities
left. -/
theorem stores_are_append_only (ops : List Operation) : AppendOnly ops where
  dense i op id k h hk := by
    rw [← h.answer, number?_perform hk, count_after]
  kept i op id h j hij := h.readsBack hij
  apart i j op op' id id' side r r' h h' hne hr hr' n := by
    rintro ⟨⟨hstart, hend⟩, hstart', hend'⟩
    obtain hij | hji := Nat.lt_or_gt_of_ne hne
    · have := end_le_start h h' hij hr hr'
      omega
    · have := end_le_start h' h hji hr' hr
      omega
  covered side n := by
    refine ⟨exists_covers, ?_⟩
    rintro ⟨i, op, id, r, h, hr, -, hn⟩
    have hi : i < ops.length := (List.getElem?_eq_some_iff.mp h.performed).1
    have inside := (h.readsBack hi).within hr
    rw [List.take_length] at inside
    exact Nat.lt_of_lt_of_le hn inside
  admitted entry h := if_neg (Nat.not_le_of_lt h)

end Store
end ColorLowering
