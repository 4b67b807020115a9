import ColorLowering.Text.Writer

/-!
# What is written

Each operation of a writer adds a text that depends on nothing but the current level. The lines of a
text are what stands between its newlines; at the left edge they are written as they stand.
-/
namespace ColorLowering.Text

theorem lines_eq_splitOn (cs : List Char) : lines cs = cs.splitOn '\n' := by
  induction cs with
  | nil => rfl
  | cons c rest ih =>
      rw [List.splitOn_cons_eq_if_modifyHead, ← ih]
      simp only [lines, cutFirst, List.foldr_cons, addFirst, beq_iff_eq]
      split <;> rfl

theorem lines_of_not_mem {cs : List Char} (h : '\n' ∉ cs) : lines cs = [cs] := by
  rw [lines_eq_splitOn, List.splitOn_eq_singleton h]

theorem lines_append_newline (a b : List Char) : lines (a ++ '\n' :: b) = lines a ++ lines b := by
  simp only [lines_eq_splitOn, List.splitOn_append_cons_self]

theorem not_newline_mem_of_mem_lines {cs line : List Char} (h : line ∈ lines cs) : '\n' ∉ line := by
  induction cs generalizing line with
  | nil =>
      obtain rfl := List.mem_singleton.mp h
      exact List.not_mem_nil
  | cons c rest ih =>
      by_cases hc : c = '\n'
      · rw [hc, lines_newline] at h
        obtain rfl | h := List.mem_cons.mp h
        · exact List.not_mem_nil
        · exact ih h
      · have cut : lines (c :: rest) = (c :: (cutFirst rest).1) :: (cutFirst rest).2 := by
          simp [lines, cutFirst, addFirst, hc]
        rw [cut] at h
        obtain rfl | h := List.mem_cons.mp h
        · have first : '\n' ∉ (cutFirst rest).1 := ih List.mem_cons_self
          exact List.not_mem_cons_of_ne_of_not_mem (Ne.symm hc) first
        · exact ih (List.mem_cons_of_mem _ h)

@[simp] theorem indentLine_zero (line : List Char) :
    Writer.indentLine 0 line = line ++ ['\n'] := by
  cases line <;> rfl

theorem flatMap_lines (cs : List Char) :
    (lines cs).flatMap (Writer.indentLine 0) = cs ++ ['\n'] := by
  induction cs with
  | nil => rfl
  | cons c rest ih =>
      simp only [lines, List.flatMap_cons, indentLine_zero] at ih
      have cut : cutFirst (c :: rest) = addFirst c (cutFirst rest) := rfl
      simp only [lines, cut, addFirst]
      split
      · rename_i hnewline
        simp [hnewline, ih]
      · simp [ih]

namespace Writer

theorem indentLines_of_not_mem {s : String} (h : '\n' ∉ s.toList) (hs : s ≠ "") (level : Nat) :
    indentLines level s = String.ofList (margin level) ++ s ++ "\n" := by
  have cut := lines_of_not_mem h
  have nonempty : s.toList ≠ [] := by simpa using hs
  apply String.ext
  simp [indentLines, cut, indentLine, nonempty]

@[simp] theorem indentLines_zero (s : String) : indentLines 0 s = s ++ "\n" := by
  apply String.ext
  simp [indentLines, flatMap_lines]

@[simp] theorem text_line (w : Writer) (s : String) :
    (w.line s).text = w.text ++ indentLines w.level s := w.text_raw _

@[simp] theorem level_line (w : Writer) (s : String) : (w.line s).level = w.level := rfl

@[simp] theorem text_blank (w : Writer) : w.blank.text = w.text ++ "\n" := w.text_raw _

@[simp] theorem level_blank (w : Writer) : w.blank.level = w.level := rfl

@[simp] theorem text_openBrace (w : Writer) :
    w.openBrace.text = w.text ++ indentLines w.level "\x7b" := w.text_line _

@[simp] theorem level_openBrace (w : Writer) : w.openBrace.level = w.level + 1 := rfl

@[simp] theorem text_closeBraceWith (w : Writer) (tail : String) :
    (w.closeBraceWith tail).text =
      w.text ++ (String.ofList (margin (w.level - 1)) ++ "\x7d" ++ tail ++ "\n") :=
  w.dedent.text_raw _

@[simp] theorem level_closeBraceWith (w : Writer) (tail : String) :
    (w.closeBraceWith tail).level = w.level - 1 := rfl

@[simp] theorem level_foldl_line (w : Writer) (texts : List String) :
    (texts.foldl line w).level = w.level := by
  induction texts generalizing w with
  | nil => rfl
  | cons text rest ih => exact ih (w.line text)

@[simp] theorem text_foldl_line (w : Writer) (texts : List String) :
    (texts.foldl line w).text = w.text ++ String.join (texts.map (indentLines w.level)) := by
  induction texts generalizing w with
  | nil => simp
  | cons text rest ih =>
      rw [List.foldl_cons, ih]
      simp [String.append_assoc]

end Writer
end ColorLowering.Text
