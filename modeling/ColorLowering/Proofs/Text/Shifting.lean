import ColorLowering.Proofs.Text.Written
import Mathlib.Data.List.Infix

/-!
# Indentation is a shift

What a sequence of operations writes from a deeper level is what it writes from a lower one, moved
to the right: every line that is not empty gets the same margin in front. This holds as long as the
operations never return to a level below the one where they begin.
-/
namespace ColorLowering.Text

/-- The text with a margin of so many levels before each of its lines that is not empty. -/
def shiftedChars (levels : Nat) (cs : List Char) : List Char :=
  ['\n'].intercalate ((cs.splitOn '\n').map fun line =>
    if line = [] then [] else Writer.margin levels ++ line)

def shifted (levels : Nat) (text : String) : String :=
  String.ofList (shiftedChars levels text.toList)

section
variable {n level : Nat} {line cs : List Char}

theorem intercalate_append {sep : List Char} {xs ys : List (List Char)} (hxs : xs ≠ [])
    (hys : ys ≠ []) :
    sep.intercalate (xs ++ ys) = sep.intercalate xs ++ sep ++ sep.intercalate ys := by
  induction xs with
  | nil => exact absurd rfl hxs
  | cons x rest ih =>
      by_cases hrest : rest = []
      · rw [hrest, List.singleton_append, List.intercalate_cons_of_ne_nil hys,
          List.intercalate_singleton]
      · rw [List.cons_append, List.intercalate_cons_of_ne_nil (by simp [hrest]), ih hrest,
          List.intercalate_cons_of_ne_nil hrest]
        simp only [List.append_assoc]

theorem shiftedChars_append_newline (n : Nat) (a b : List Char) :
    shiftedChars n (a ++ '\n' :: b) = shiftedChars n a ++ '\n' :: shiftedChars n b := by
  rw [shiftedChars, List.splitOn_append_cons_self, List.map_append, intercalate_append
    (by simp [List.splitOn_ne_nil]) (by simp [List.splitOn_ne_nil]), List.append_assoc]
  rfl

theorem shiftedChars_of_not_mem (h : '\n' ∉ cs) :
    shiftedChars n cs = if cs = [] then [] else Writer.margin n ++ cs := by
  rw [shiftedChars, List.splitOn_eq_singleton h, List.map_singleton, List.intercalate_singleton]

theorem margin_append (n level : Nat) :
    Writer.margin n ++ Writer.margin level = Writer.margin (level + n) := by
  rw [Writer.margin, Writer.margin, List.replicate_append_replicate, Writer.margin]
  congr 1
  omega

theorem not_newline_mem_margin (level : Nat) : '\n' ∉ Writer.margin level := by
  simp [Writer.margin]

/-- A line is shifted when it is written at a deeper level, whatever follows it. -/
theorem shiftedChars_indentLine (h : '\n' ∉ line) (more : List Char) :
    shiftedChars n (Writer.indentLine level line ++ more) =
      Writer.indentLine (level + n) line ++ shiftedChars n more := by
  by_cases hempty : line = []
  · subst hempty
    exact shiftedChars_append_newline n [] more
  · have full : '\n' ∉ Writer.margin level ++ line := by simp [not_newline_mem_margin, h]
    simp only [Writer.indentLine, List.isEmpty_iff, if_neg hempty]
    rw [List.append_assoc, List.singleton_append, shiftedChars_append_newline,
      shiftedChars_of_not_mem full, if_neg (by simp [hempty]), ← List.append_assoc, margin_append]
    simp

theorem shiftedChars_flatMap {ls : List (List Char)} (h : ∀ line ∈ ls, '\n' ∉ line)
    (more : List Char) : shiftedChars n (ls.flatMap (Writer.indentLine level) ++ more) =
      ls.flatMap (Writer.indentLine (level + n)) ++ shiftedChars n more := by
  induction ls with
  | nil => rfl
  | cons line rest ih =>
      obtain ⟨hline, hrest⟩ := List.forall_mem_cons.mp h
      rw [List.flatMap_cons, List.append_assoc, shiftedChars_indentLine hline, ih hrest,
        List.flatMap_cons, List.append_assoc]

end

/-- The text `b` is `a` shifted, also where something follows. -/
def Shifts (n : Nat) (a b : String) : Prop :=
  ∀ more, shifted n (a ++ more) = b ++ shifted n more

namespace Shifts

variable {n : Nat} {a b a' b' : String}

theorem empty : Shifts n "" "" := by
  intro more
  rw [String.empty_append, String.empty_append]

theorem append (h : Shifts n a b) (h' : Shifts n a' b') : Shifts n (a ++ a') (b ++ b') := by
  intro more
  rw [String.append_assoc, h, h', String.append_assoc]

theorem shifted_eq (h : Shifts n a b) : shifted n a = b := by
  have alone := h ""
  rwa [String.append_empty, show shifted n "" = "" from rfl, String.append_empty] at alone

theorem indentLines (level : Nat) (text : String) :
    Shifts n (Writer.indentLines level text) (Writer.indentLines (level + n) text) := by
  intro more
  apply String.ext
  simp only [shifted, Writer.indentLines, String.toList_append, String.toList_ofList]
  exact shiftedChars_flatMap (fun line => not_newline_mem_of_mem_lines) more.toList

end Shifts

namespace Writer

inductive Operation where
  | line (text : String)
  | blank
  | indent
  | dedent
  | openBrace
  | closeBrace
  | closeBraceWith (tail : String)

namespace Operation

def apply (w : Writer) : Operation → Writer
  | .line text => w.line text
  | .blank => w.blank
  | .indent => w.indent
  | .dedent => w.dedent
  | .openBrace => w.openBrace
  | .closeBrace => w.closeBrace
  | .closeBraceWith tail => w.closeBraceWith tail

def rises : Operation → Bool
  | .indent | .openBrace => true
  | _ => false

def falls : Operation → Bool
  | .dedent | .closeBrace | .closeBraceWith _ => true
  | _ => false

/-- What follows a closing brace stays on its line. -/
def EndsOnLine : Operation → Prop
  | .closeBraceWith tail => '\n' ∉ tail.toList
  | _ => True

end Operation

def perform (w : Writer) (ops : List Operation) : Writer := ops.foldl Operation.apply w

/-- In no beginning of the operations are there more that dedent than there are that indent, apart
from `depth`. -/
def StaysAbove (depth : Nat) (ops : List Operation) : Prop :=
  ∀ first, first <+: ops → first.countP Operation.falls ≤ depth + first.countP Operation.rises

instance (depth : Nat) (ops : List Operation) : Decidable (StaysAbove depth ops) :=
  decidable_of_iff
    (∀ first ∈ ops.inits, first.countP Operation.falls ≤ depth + first.countP Operation.rises)
    (by simp only [StaysAbove, List.mem_inits])

/-- Since `w` and `w'`, what `v'` has more than `w'` is what `v` has more than `w`, shifted. -/
structure Deeper (n : Nat) (w w' v v' : Writer) : Prop where
  added : ∃ a b, v.text = w.text ++ a ∧ v'.text = w'.text ++ b ∧ Shifts n a b
  level : v'.level = v.level + n

section
variable {n depth : Nat} {w w' v v' u u' : Writer} {op : Operation} {ops : List Operation}

theorem Deeper.trans (h : Deeper n w w' v v') (h' : Deeper n v v' u u') : Deeper n w w' u u' := by
  obtain ⟨⟨a, b, hv, hv', hab⟩, -⟩ := h
  obtain ⟨⟨c, d, hu, hu', hcd⟩, hlevel⟩ := h'
  refine ⟨⟨a ++ c, b ++ d, ?_, ?_, hab.append hcd⟩, hlevel⟩
  · rw [hu, hv, String.append_assoc]
  · rw [hu', hv', String.append_assoc]

theorem Deeper.line (hlevel : w'.level = w.level + n) (text : String) :
    Deeper n w w' (w.line text) (w'.line text) :=
  ⟨⟨_, _, w.text_line text, w'.text_line text, hlevel ▸ .indentLines w.level text⟩, hlevel⟩

theorem text_closeBraceWith_eq {tail : String} (h : '\n' ∉ tail.toList) (w : Writer) :
    (w.closeBraceWith tail).text = w.text ++ indentLines (w.level - 1) ("\x7d" ++ tail) := by
  rw [text_closeBraceWith, indentLines_of_not_mem (by simpa using h) (by simp)]
  simp only [String.append_assoc]

theorem Deeper.closeBraceWith (hlevel : w'.level = w.level + n) (hdepth : 0 < w.level)
    {tail : String} (htail : '\n' ∉ tail.toList) :
    Deeper n w w' (w.closeBraceWith tail) (w'.closeBraceWith tail) := by
  have outer : w'.level - 1 = w.level - 1 + n := by omega
  exact ⟨⟨_, _, text_closeBraceWith_eq htail w, text_closeBraceWith_eq htail w',
    outer ▸ .indentLines (w.level - 1) _⟩, outer⟩

theorem Deeper.apply (hlevel : w'.level = w.level + n) (hdepth : op.falls → 0 < w.level)
    (htail : op.EndsOnLine) : Deeper n w w' (op.apply w) (op.apply w') := by
  have unchanged (x : Writer) : x.text = x.text ++ "" := String.append_empty.symm
  cases op with
  | line text => exact .line hlevel text
  | blank => exact ⟨⟨_, _, w.text_blank, w'.text_blank, .indentLines w.level ""⟩, hlevel⟩
  | indent =>
      have inner : w'.level + 1 = w.level + 1 + n := by omega
      exact ⟨⟨"", "", unchanged w, unchanged w', .empty⟩, inner⟩
  | dedent =>
      have outer : w'.level - 1 = w.level - 1 + n := by
        have := hdepth rfl
        omega
      exact ⟨⟨"", "", unchanged w, unchanged w', .empty⟩, outer⟩
  | openBrace =>
      have inner : w'.level + 1 = w.level + 1 + n := by omega
      exact ⟨(Deeper.line hlevel "\x7b").added, inner⟩
  | closeBrace => exact .closeBraceWith hlevel (hdepth rfl) List.not_mem_nil
  | closeBraceWith tail => exact .closeBraceWith hlevel (hdepth rfl) htail

theorem StaysAbove.mono {outer : Nat} (h : StaysAbove depth ops) (hle : depth ≤ outer) :
    StaysAbove outer ops :=
  fun first hfirst => (h first hfirst).trans (Nat.add_le_add_right hle _)

theorem StaysAbove.pos_of_falls (h : StaysAbove depth (op :: ops)) (hop : op.falls) :
    0 < depth := by
  have alone := h [op] (by simp)
  cases op with
  | dedent | closeBrace | closeBraceWith => exact alone
  | _ => cases hop

theorem level_apply (hdepth : op.falls → 0 < w.level) :
    (op.apply w).level + [op].countP Operation.falls =
      w.level + [op].countP Operation.rises := by
  cases op with
  | dedent | closeBrace | closeBraceWith =>
      exact Nat.sub_add_cancel (hdepth rfl)
  | _ => rfl

theorem StaysAbove.next (h : StaysAbove w.level (op :: ops)) :
    StaysAbove (op.apply w).level ops := by
  intro first hfirst
  have counted := h (op :: first) (List.cons_prefix_cons.mpr ⟨rfl, hfirst⟩)
  have moved := level_apply h.pos_of_falls
  rw [← List.singleton_append, List.countP_append, List.countP_append] at counted
  omega

theorem Deeper.perform (hlevel : w'.level = w.level + n) (hops : StaysAbove w.level ops)
    (htails : ∀ op ∈ ops, op.EndsOnLine) : Deeper n w w' (w.perform ops) (w'.perform ops) := by
  induction ops generalizing w w' with
  | nil => exact ⟨⟨"", "", String.append_empty.symm, String.append_empty.symm, .empty⟩, hlevel⟩
  | cons op rest ih =>
      obtain ⟨htail, hrest⟩ := List.forall_mem_cons.mp htails
      have step : Deeper n w w' (op.apply w) (op.apply w') :=
        .apply hlevel hops.pos_of_falls htail
      exact step.trans (ih step.level hops.next hrest)

theorem text_line_append_newline (w : Writer) (a b : String) :
    (w.line (a ++ "\n" ++ b)).text = ((w.line a).line b).text := by
  have cut : indentLines w.level (a ++ "\n" ++ b) =
      indentLines w.level a ++ indentLines w.level b := by
    apply String.ext
    simp [indentLines, lines_append_newline]
  rw [text_line, text_line, text_line, level_line, cut, String.append_assoc]

end

/-- Operations that never return to a level below their first, asked of a writer that stands `n`
levels deeper, add to its text what they add to the other's, shifted by `n` levels, and leave it at
the same distance from where it began; and a text of several lines is written line by line. -/
theorem indentation_is_a_shift (w : Writer) :
    (∀ ops, StaysAbove 0 ops → (∀ op ∈ ops, op.EndsOnLine) →
      ∀ (n : Nat) (deeper : Writer), deeper.level = w.level + n →
        (∃ added, (w.perform ops).text = w.text ++ added ∧
          (deeper.perform ops).text = deeper.text ++ shifted n added) ∧
        ((deeper.perform ops).level - deeper.level : Int) = (w.perform ops).level - w.level) ∧
    ∀ a b, (w.line (a ++ "\n" ++ b)).text = ((w.line a).line b).text ∧
      (w.line (a ++ "\n" ++ b)).level = ((w.line a).line b).level := by
  refine ⟨fun ops hops htails n deeper hdeeper => ?_, fun a b => ⟨?_, rfl⟩⟩
  · have run := Deeper.perform hdeeper (hops.mono (Nat.zero_le _)) htails
    obtain ⟨a, b, ha, hb, hab⟩ := run.added
    have hlevel := run.level
    refine ⟨⟨a, ha, ?_⟩, ?_⟩
    · rw [hb, hab.shifted_eq]
    · omega
  · exact w.text_line_append_newline a b

def sparseBlock : List Operation := [.openBrace, .line "a;\n\nb;", .closeBraceWith ";"]

theorem sparse_block_shifted :
    StaysAbove 0 sparseBlock ∧ (∀ op ∈ sparseBlock, op.EndsOnLine) ∧
    empty.indent.level = empty.level + 1 ∧
    (∃ added, (empty.perform sparseBlock).text = empty.text ++ added ∧
      (empty.indent.perform sparseBlock).text = empty.indent.text ++ shifted 1 added) ∧
    ((empty.indent.perform sparseBlock).level - empty.indent.level : Int) =
      (empty.perform sparseBlock).level - empty.level := by
  have stays : StaysAbove 0 sparseBlock := by decide
  have tails : ∀ op ∈ sparseBlock, op.EndsOnLine := by simp [sparseBlock, Operation.EndsOnLine]
  exact ⟨stays, tails, rfl,
    (indentation_is_a_shift empty).1 sparseBlock stays tails 1 empty.indent rfl⟩

end Writer
end ColorLowering.Text
