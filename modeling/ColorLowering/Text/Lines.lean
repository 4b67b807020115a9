/-!
# Lines of a text

`lines` cuts a text at its newlines; the piece after the last newline counts even when it is empty,
so a text with `n` newlines has `n + 1` lines. `rows` reads the same text as terminated lines: a
final newline opens no further row, and a carriage return before a newline belongs to the line end.
-/
namespace ColorLowering.Text

/-- Puts a character before a text of which the first line and the others are given. -/
def addFirst (c : Char) (cut : List Char × List (List Char)) : List Char × List (List Char) :=
  if c = '\n' then ([], cut.1 :: cut.2) else (c :: cut.1, cut.2)

def cutFirst (cs : List Char) : List Char × List (List Char) :=
  cs.foldr addFirst ([], [])

def lines (cs : List Char) : List (List Char) :=
  (cutFirst cs).1 :: (cutFirst cs).2

def dropReturn (cs : List Char) : List Char :=
  if cs.getLast? = some '\r' then cs.dropLast else cs

def lastRow (last : List Char) : List (List Char) :=
  if last.isEmpty then [] else [last]

def rows (cs : List Char) : List (List Char) :=
  (lines cs).dropLast.map dropReturn ++ lastRow ((lines cs).getLastD [])

@[simp] theorem lines_nil : lines [] = [[]] := rfl

theorem lines_newline (cs : List Char) : lines ('\n' :: cs) = [] :: lines cs := by
  simp [lines, cutFirst, addFirst]

end ColorLowering.Text
