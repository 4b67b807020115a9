import ColorLowering.Proofs.Statements.Reading
import ColorLowering.Text.Writer
import ColorLowering.Ty.Declaration

/-!
# The tokens of a text

Each piece of a text is a brace, a head, `else` with or without a head, or a line that ends in a
semicolon. Margins carry no meaning.
-/
namespace ColorLowering
namespace Text

def flushFrom : Bool → List Char → List Char
  | _, [] => []
  | atStart, c :: rest =>
    if c = '\n' then c :: flushFrom true rest
    else if atStart && c = ' ' then flushFrom true rest
    else c :: flushFrom false rest

def flush (s : String) : List Char := flushFrom true s.toList

theorem flushFrom_margin (level : Nat) (cs : List Char) :
    flushFrom true (Writer.margin level ++ cs) = flushFrom true cs := by
  unfold Writer.margin
  induction 4 * level with
  | zero => rfl
  | succ n ih => simpa [List.replicate_succ, flushFrom] using ih

theorem flushFrom_indentLine (level : Nat) (line rest : List Char) :
    flushFrom true (Writer.indentLine level line ++ rest) =
      flushFrom true (line ++ '\n' :: rest) := by
  unfold Writer.indentLine
  by_cases hempty : line.isEmpty
  · rw [if_pos hempty, List.isEmpty_iff.mp hempty]
    rfl
  · rw [if_neg hempty, List.append_assoc, List.append_assoc, flushFrom_margin]
    rfl

theorem flushFrom_cut (level : Nat) (atStart : Bool) (cs : List Char) :
    flushFrom atStart
        ((cutFirst cs).1 ++ '\n' :: (cutFirst cs).2.flatMap (Writer.indentLine level)) =
      flushFrom atStart cs ++ ['\n'] := by
  induction cs generalizing atStart with
  | nil => rfl
  | cons c rest ih =>
      have cut : cutFirst (c :: rest) = addFirst c (cutFirst rest) := rfl
      rw [cut, addFirst]
      by_cases hc : c = '\n'
      · rw [if_pos hc, hc]
        simp only [List.nil_append, List.flatMap_cons, flushFrom, if_true]
        rw [flushFrom_indentLine, ih true]
        rfl
      · rw [if_neg hc]
        simp only [List.cons_append, flushFrom, if_neg hc]
        by_cases hskip : atStart && c = ' '
        · simp only [if_pos hskip]
          exact ih true
        · simp only [if_neg hskip]
          rw [ih false]
          rfl

theorem flush_indentLines (level : Nat) (s : String) :
    flush (Writer.indentLines level s) = flush s ++ ['\n'] := by
  unfold flush Writer.indentLines lines
  rw [String.toList_ofList, List.flatMap_cons, flushFrom_indentLine, flushFrom_cut]

theorem flushFrom_append_of_ne {c : Char} (hline : c ≠ '\n') (hblank : c ≠ ' ') (cs : List Char)
    (atStart : Bool) : flushFrom atStart (cs ++ [c]) = flushFrom atStart cs ++ [c] := by
  induction cs generalizing atStart with
  | nil => simp [flushFrom, hline, hblank]
  | cons d rest ih =>
      simp only [List.cons_append, flushFrom]
      by_cases hd : d = '\n'
      · rw [if_pos hd, if_pos hd, ih]
        rfl
      · rw [if_neg hd, if_neg hd]
        by_cases hskip : atStart && d = ' '
        · rw [if_pos hskip, if_pos hskip]
          exact ih true
        · rw [if_neg hskip, if_neg hskip, ih]
          rfl

end Text

open Text

def headText (keyword cond : String) : String := keyword ++ " " ++ parenthesized cond

def Token.ofText (text : List Char) : List Token :=
  if text = ['\x7b'] then [.openBrace]
  else if text = ['\x7d'] then [.closeBrace]
  else if text.getLast? = some ';' then [.line text]
  else if text = "else".toList then [.elseKeyword]
  else if "else if (".toList.isPrefixOf text then [.elseKeyword, .ifHead (text.drop 5)]
  else if "if (".toList.isPrefixOf text then [.ifHead text]
  else if "while (".toList.isPrefixOf text then [.whileHead text]
  else [.line text]

def Token.ofPiece (piece : String) : List Token := ofText (flush piece).dropLast

namespace Token

theorem ofPiece_indentLines (level : Nat) (s : String) :
    ofPiece (Writer.indentLines level s) = ofText (flush s) := by
  rw [ofPiece, flush_indentLines, List.dropLast_concat]

theorem ofText_line (s : String) : ofText (flush (s ++ ";")) = [.line (flush (s ++ ";"))] := by
  have last : (flush (s ++ ";")).getLast? = some ';' := by
    unfold flush
    rw [String.toList_append]
    rw [show ";".toList = [';'] from rfl, flushFrom_append_of_ne (by decide) (by decide)]
    simp
  have notBrace {c : Char} (hc : c ≠ ';') : flush (s ++ ";") ≠ [c] := by
    intro h
    rw [h] at last
    exact hc (Option.some.inj last)
  unfold ofText
  rw [if_neg (notBrace (by decide)), if_neg (notBrace (by decide)), if_pos last]

def condText (cond : String) : List Char := flushFrom false (cond.toList ++ [' '])

theorem flush_headText {keyword : String} (cond : String)
    (hkeyword : ∀ rest, flushFrom true (keyword.toList ++ rest) =
      keyword.toList ++ flushFrom false rest) :
    flush (headText keyword cond) =
      keyword.toList ++ [' ', '(', ' '] ++ condText cond ++ [')'] := by
  have blanks (rest : List Char) :
      flushFrom false ([' ', '(', ' '] ++ rest) = [' ', '(', ' '] ++ flushFrom false rest := by
    simp [flushFrom]
  have text : (headText keyword cond).toList =
      keyword.toList ++ ([' ', '(', ' '] ++ ((cond.toList ++ [' ']) ++ [')'])) := by
    simp [headText, parenthesized]
  rw [flush, text, hkeyword, blanks, flushFrom_append_of_ne (by decide) (by decide), condText]
  simp only [List.append_assoc]

theorem flush_if (cond : String) :
    flush (headText "if" cond) = "if ( ".toList ++ condText cond ++ [')'] :=
  flush_headText cond fun rest => by simp [flushFrom]

theorem flush_elseIf (cond : String) :
    flush (headText "else if" cond) = "else if ( ".toList ++ condText cond ++ [')'] :=
  flush_headText cond fun rest => by simp [flushFrom]

theorem flush_while (cond : String) :
    flush (headText "while" cond) = "while ( ".toList ++ condText cond ++ [')'] :=
  flush_headText cond fun rest => by simp [flushFrom]

theorem ofText_if (cond : String) :
    ofText (flush (headText "if" cond)) = [.ifHead (flush (headText "if" cond))] := by
  have last : (flush (headText "if" cond)).getLast? = some ')' := by
    rw [flush_if, List.getLast?_concat]
  unfold ofText
  rw [last, flush_if]
  simp

theorem ofText_elseIf (cond : String) :
    ofText (flush (headText "else if" cond)) =
      [.elseKeyword, .ifHead (flush (headText "if" cond))] := by
  have last : (flush (headText "else if" cond)).getLast? = some ')' := by
    rw [flush_elseIf, List.getLast?_concat]
  unfold ofText
  rw [last, flush_elseIf, flush_if]
  simp

theorem ofText_while (cond : String) :
    ofText (flush (headText "while" cond)) = [.whileHead (flush (headText "while" cond))] := by
  have last : (flush (headText "while" cond)).getLast? = some ')' := by
    rw [flush_while, List.getLast?_concat]
  unfold ofText
  rw [last, flush_while]
  simp

theorem ofPiece_closeBrace (level : Nat) :
    ofPiece (String.ofList (Writer.margin level) ++ "\x7d" ++ "" ++ "\n") = [.closeBrace] := by
  have text : flush (String.ofList (Writer.margin level) ++ "\x7d" ++ "" ++ "\n") =
      ['\x7d', '\n'] := by
    unfold flush
    simp only [String.toList_append, String.toList_ofList, List.append_assoc]
    rw [flushFrom_margin]
    rfl
  rw [ofPiece, text]
  rfl

end Token
end ColorLowering
