import ColorLowering.Text.Lines

/-!
# Indented output

A writer holds the pieces written so far and the current indentation level. Each operation adds at
most one piece, so a position in the output is a number of pieces, and rewinding to a mark forgets
exactly what was written after it.
-/
namespace ColorLowering.Text

structure Writer where
  pieces : Array String
  level : Nat

namespace Writer

def empty : Writer := ⟨#[], 0⟩

def joined (pieces : Array String) : String := String.join pieces.toList

def text (w : Writer) : String := joined w.pieces

/-- The length of the text in bytes. -/
def size (w : Writer) : Nat :=
  w.pieces.foldl (fun bytes piece => bytes + piece.utf8ByteSize) 0

def isEmpty (w : Writer) : Bool := w.size = 0

def raw (w : Writer) (s : String) : Writer :=
  { w with pieces := w.pieces.push s }

def indent (w : Writer) : Writer :=
  { w with level := w.level + 1 }

def dedent (w : Writer) : Writer :=
  { w with level := w.level - 1 }

/-- Four spaces for each level. -/
def margin (level : Nat) : List Char :=
  List.replicate (4 * level) ' '

/-- An empty line gets no margin. -/
def indentLine (level : Nat) (line : List Char) : List Char :=
  if line.isEmpty then ['\n'] else margin level ++ line ++ ['\n']

def indentLines (level : Nat) (s : String) : String :=
  String.ofList ((lines s.toList).flatMap (indentLine level))

/-- Every line of `s` starts at the current margin. -/
def line (w : Writer) (s : String) : Writer :=
  w.raw (indentLines w.level s)

def blank (w : Writer) : Writer := w.raw "\n"

def openBrace (w : Writer) : Writer := (w.line "\x7b").indent

/-- The text after the closing brace is written as it stands, whatever lines it holds. -/
def closeBraceWith (w : Writer) (tail : String) : Writer :=
  w.dedent.raw (String.ofList (margin w.dedent.level) ++ "\x7d" ++ tail ++ "\n")

def closeBrace (w : Writer) : Writer := w.closeBraceWith ""

def mark (w : Writer) : Nat := w.pieces.size

def textSince (w : Writer) (start : Nat) : String :=
  joined (w.pieces.extract start w.pieces.size)

/-- What was written after the mark is dropped, and the margin returns to the left edge. -/
def rewind (w : Writer) (start : Nat) : Writer :=
  ⟨w.pieces.extract 0 start, 0⟩

theorem joined_append (a b : Array String) : joined (a ++ b) = joined a ++ joined b := by
  simp [joined]

@[simp] theorem text_raw (w : Writer) (s : String) : (w.raw s).text = w.text ++ s := by
  simp [text, raw, joined]

theorem size_eq (w : Writer) : w.size = w.text.utf8ByteSize := by
  have sizes (pieces : List String) (bytes : Nat) :
      pieces.foldl (fun bytes piece => bytes + piece.utf8ByteSize) bytes =
        bytes + (String.join pieces).utf8ByteSize := by
    induction pieces generalizing bytes with
    | nil => rfl
    | cons piece rest ih =>
        rw [List.foldl_cons, ih, String.join_cons, String.utf8ByteSize_append]
        omega
  simpa [size, text, joined] using sizes w.pieces.toList 0

@[simp] theorem level_raw (w : Writer) (s : String) : (w.raw s).level = w.level := rfl

/-- What is written after a mark is all that rewinding to it forgets. -/
theorem rewind_mark (w : Writer) (later : Array String) (level : Nat) :
    (⟨w.pieces ++ later, level⟩ : Writer).rewind w.mark = ⟨w.pieces, 0⟩ := by
  simp [rewind, mark]

end Writer
end ColorLowering.Text
