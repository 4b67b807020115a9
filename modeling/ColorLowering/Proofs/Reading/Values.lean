import ColorLowering.Proofs.Reading.Compound

/-!
# Literals

A number is one token, whatever form it is written in, and so is a string with its escapes. A sign
before a number is a prefix, and a half is a conversion of the number.
-/
namespace ColorLowering

open Cpp

def Cpp.signed (negative : Bool) (number : List Char) : Tree :=
  if negative then .unary .neg (.literal number) else .literal number

namespace Binary32

def finiteTree (x : Binary32) : Tree := signed x.isNegative x.unsignedChars

def floatTree (x : Binary32) : Tree :=
  if x.isNaN then .name ["FLT_NAN".toList]
  else if x.isInfinite then
    .name [(if x.isNegative then "FLT_NEG_INF" else "FLT_POS_INF").toList]
  else x.finiteTree

def halfTree (x : Binary32) : Tree :=
  if x.isNaN then .name ["HALF_NAN".toList]
  else if x.isInfinite then
    .name [(if x.isNegative then "HALF_NEG_INF" else "HALF_POS_INF").toList]
  else .apply (.name ["half".toList]) [x.finiteTree]

end Binary32

def Value.tree : Value → Tree
  | .bool b => .literal (if b then "true" else "false").toList
  | .int i => signed (decide (i.toInt < 0)) (toString i.toInt.natAbs).toList
  | .uint u => .literal (toString u.toNat).toList
  | .half x => x.halfTree
  | .float x => x.floatTree

def Literal.tree : Literal → Tree
  | .scalar v => v.tree
  | .string s => .literal (Text.Quoted.encode s).toList

namespace Cpp

/-! ### Numbers -/

structure IsNumber (cs : List Char) : Prop where
  lexed : lex cs = some [.number cs]
  first : ∃ c rest, cs = c :: rest ∧ c.isDigit

theorem IsNumber.of_chars {c : Char} {cs : List Char} (hc : c.isDigit)
    (hcs : ∀ d ∈ cs, d.isDigit ∨ d = '.') : IsNumber (c :: cs) := by
  refine ⟨lex_number hc ?_, c, cs, rfl, hc⟩
  rw [List.all_eq_true]
  intro d hd
  rcases hcs d hd with hdigit | rfl
  · rw [isNameChar_of_isDigit hdigit, Bool.true_or]
  · rfl

theorem isDigit_of_mem_toDigits {n : Nat} {c : Char} (hc : c ∈ Nat.toDigits 10 n) : c.isDigit :=
  Nat.isDigit_of_mem_toDigits (by decide) (by decide) hc

theorem toDigits_cons (n : Nat) : ∃ c rest, Nat.toDigits 10 n = c :: rest ∧ c.isDigit ∧
    ∀ d ∈ rest, d.isDigit := by
  cases h : Nat.toDigits 10 n with
  | nil => exact absurd h Nat.toDigits_ne_nil
  | cons c rest =>
      have digits : ∀ d ∈ c :: rest, d.isDigit := fun d hd => isDigit_of_mem_toDigits (h ▸ hd)
      exact ⟨c, rest, rfl, digits c List.mem_cons_self,
        fun d hd => digits d (List.mem_cons_of_mem c hd)⟩

theorem isNumber_toString (n : Nat) : IsNumber (toString n).toList := by
  have chars : (toString n).toList = Nat.toDigits 10 n := by simp
  obtain ⟨c, rest, hdigits, hc, hrest⟩ := toDigits_cons n
  rw [chars, hdigits]
  exact .of_chars hc fun d hd => .inl (hrest d hd)

theorem mem_zeros {n : Nat} {c : Char} (h : c ∈ Decimal.zeros n) : c.isDigit := by
  rw [List.eq_of_mem_replicate h]
  rfl

theorem isNumber_positional (d : Decimal) : IsNumber d.positional := by
  obtain ⟨c, rest, hdigits, hc, hrest⟩ := toDigits_cons d.digits
  have all : ∀ e ∈ Nat.toDigits 10 d.digits, e.isDigit := fun e he => isDigit_of_mem_toDigits he
  unfold Decimal.positional
  dsimp only
  split
  · rw [hdigits, List.cons_append, List.cons_append]
    refine .of_chars hc fun e he => ?_
    simp only [List.mem_append, List.mem_cons, List.not_mem_nil, or_false] at he
    rcases he with (he | he) | rfl | rfl
    · exact .inl (hrest e he)
    · exact .inl (mem_zeros he)
    · exact .inr rfl
    · exact .inl rfl
  · split
    · rename_i hplaces
      obtain ⟨k, hk⟩ : ∃ k, (Nat.toDigits 10 d.digits).length - (-d.exponent).toNat = k + 1 :=
        ⟨_, (Nat.succ_pred (by omega)).symm⟩
      rw [hk, hdigits, List.take_succ_cons, List.cons_append]
      refine .of_chars hc fun e he => ?_
      rw [List.mem_append, List.mem_cons] at he
      rcases he with he | rfl | he
      · exact .inl (hrest e (List.mem_of_mem_take he))
      · exact .inr rfl
      · exact .inl (all e (hdigits ▸ List.mem_of_mem_drop he))
    · rw [List.cons_append, List.cons_append]
      refine .of_chars rfl fun e he => ?_
      rw [List.mem_cons, List.mem_append] at he
      rcases he with rfl | he | he
      · exact .inr rfl
      · exact .inl (mem_zeros he)
      · exact .inl (all e he)

theorem scan_exponent (text : List Char) (exponent : Int) :
    scan (.number text) ('e' :: (toString exponent).toList) =
      some [.number (text ++ 'e' :: (toString exponent).toList)] := by
  have digits (cs : List Char) (n : Nat) : scan (.number cs) (Nat.toDigits 10 n) =
      some [.number (cs ++ Nat.toDigits 10 n)] := by
    have h : scan (.number cs) (Nat.toDigits 10 n ++ []) =
        scan (.number (cs ++ Nat.toDigits 10 n)) [] := scan_number ?_
    · rw [List.append_nil] at h
      exact h
    · rw [List.all_eq_true]
      intro d hd
      rw [isNameChar_of_isDigit (isDigit_of_mem_toDigits hd), Bool.true_or]
  have letter : (Pending.number text).continued 'e' = some (.number (text ++ ['e'])) := by
    rw [Pending.continued, if_pos]
    rfl
  rw [scan_continued letter]
  cases exponent with
  | ofNat n =>
      have same : toString (Int.ofNat n) = toString n := rfl
      have chars : (toString (Int.ofNat n)).toList = Nat.toDigits 10 n := by
        rw [same]
        simp
      rw [chars, digits, List.append_assoc]
      rfl
  | negSucc n =>
      have same : toString (Int.negSucc n) = "-" ++ toString (n + 1) := rfl
      have chars : (toString (Int.negSucc n)).toList = '-' :: Nat.toDigits 10 (n + 1) := by
        rw [same]
        simp
      have sign : (Pending.number (text ++ ['e'])).continued '-' =
          some (.number (text ++ ['e'] ++ ['-'])) := by
        rw [Pending.continued, if_pos]
        simp [Pending.continuesNumber]
      rw [chars, scan_continued sign, digits]
      simp

theorem isNumber_scientific (d : Decimal) : IsNumber d.scientific := by
  obtain ⟨c, rest, hdigits, hc, hrest⟩ := toDigits_cons d.digits
  obtain ⟨fraction, hfraction, hchars⟩ : ∃ fraction, (∀ e ∈ fraction, e.isDigit ∨ e = '.') ∧
      d.scientific = c :: (fraction ++ 'e' ::
        (toString (d.exponent + ((c :: rest).length - 1 : Nat))).toList) := by
    unfold Decimal.scientific
    rw [hdigits]
    by_cases hlone : (c :: rest).length = 1
    · exact ⟨[], by simp, by simp [hlone]⟩
    · have more : rest ≠ [] := fun h => hlone (by rw [h]; rfl)
      refine ⟨'.' :: rest, fun e he => ?_, by simp [more]⟩
      rcases List.mem_cons.mp he with rfl | he
      · exact .inr rfl
      · exact .inl (hrest e he)
  have mantissa : fraction.all fun c => isNameChar c || c == '.' := by
    rw [List.all_eq_true]
    intro e he
    rcases hfraction e he with hdigit | rfl
    · rw [isNameChar_of_isDigit hdigit, Bool.true_or]
    · rfl
  refine ⟨?_, c, _, hchars, hc⟩
  rw [hchars, lex, scan_digit hc, scan_number mantissa, scan_exponent]
  rfl

theorem isNumber_unsignedChars (x : Binary32) : IsNumber x.unsignedChars := by
  unfold Binary32.unsignedChars
  split
  · exact ⟨by decide, _, _, rfl, rfl⟩
  · split
    · exact isNumber_positional _
    · exact isNumber_scientific _

theorem IsNumber.operand {text : String} {cs : List Char} (h : IsNumber cs)
    (htext : text.toList = cs) : ReadsAs text (.literal cs) := by
  obtain ⟨c, rest, rfl, hc⟩ := h.first
  have lexed : lex text.toList = some [.number (c :: rest)] := by rw [htext, h.lexed]
  have first : leads c := by simp [leads, hc]
  exact ⟨[], _, ⟨⟨_, lexed, fun _ => rfl⟩, ⟨c, rest, htext, first⟩, rfl⟩, rfl⟩

theorem IsNumber.negative {text : String} {cs : List Char} (h : IsNumber cs)
    (htext : text.toList = '-' :: cs) : ReadsAs text (.unary .neg (.literal cs)) := by
  have number : ReadsAs (String.ofList cs) (.literal cs) := h.operand String.toList_ofList
  obtain ⟨c, rest, rfl, hc⟩ := h.first
  have apart : c ≠ '-' := by rintro rfl; cases hc
  have negated := number.unary .neg
  rw [unaryText, String.front?_eq, String.toList_ofList, if_neg] at negated
  · have same : UnaryOp.neg.token ++ String.ofList (c :: rest) = text := by
      rw [← String.toList_inj, String.toList_append, String.toList_ofList, htext]
      rfl
    rwa [same] at negated
  · simpa [String.front?_eq, UnaryOp.token] using apart

theorem readsAs_signed {text : String} {negative : Bool} {cs : List Char} (h : IsNumber cs)
    (htext : text.toList = if negative then '-' :: cs else cs) :
    ReadsAs text (signed negative cs) := by
  cases negative with
  | true => exact h.negative htext
  | false => exact h.operand htext

theorem readsAs_finiteText (x : Binary32) : ReadsAs x.finiteText x.finiteTree :=
  readsAs_signed (isNumber_unsignedChars x) (by rw [Binary32.finiteText, String.toList_ofList])

theorem readsAs_floatLiteral (x : Binary32) : ReadsAs x.floatLiteral x.floatTree := by
  unfold Binary32.floatLiteral Binary32.floatTree
  split
  · exact (Base.name (by decide)).readsAs
  · split
    · split
      · exact (Base.name (by decide)).readsAs
      · exact (Base.name (by decide)).readsAs
    · exact readsAs_finiteText x

theorem readsAs_halfLiteral (x : Binary32) : ReadsAs x.halfLiteral x.halfTree := by
  unfold Binary32.halfLiteral Binary32.halfTree
  split
  · exact (Base.name (by decide)).readsAs
  · split
    · split
      · exact (Base.name (by decide)).readsAs
      · exact (Base.name (by decide)).readsAs
    · have half : Base "half" (.name ["half".toList]) := Base.name (by decide)
      have applied := half.apply (.cons (readsAs_finiteText x) .nil)
      rw [commaSeparated, String.intercalate_singleton, parenthesized] at applied
      have same : "half( " ++ x.finiteText ++ " )" = "half" ++ ("( " ++ x.finiteText ++ " )") := by
        rw [← String.toList_inj]
        simp
      rw [same]
      exact applied.readsAs

theorem readsAs_bool (b : Bool) :
    ReadsAs (if b then "true" else "false") (.literal (if b then "true" else "false").toList) := by
  cases b with
  | true => exact ⟨[], _, ⟨⟨[.keyword "true".toList], by decide, fun _ => rfl⟩,
      ⟨'t', _, rfl, by decide⟩, rfl⟩, rfl⟩
  | false => exact ⟨[], _, ⟨⟨[.keyword "false".toList], by decide, fun _ => rfl⟩,
      ⟨'f', _, rfl, by decide⟩, rfl⟩, rfl⟩

theorem readsAs_value (v : Value) : ReadsAs v.text v.tree := by
  cases v with
  | bool b => exact readsAs_bool b
  | int i =>
      apply readsAs_signed (isNumber_toString i.toInt.natAbs)
      rw [Value.text]
      cases i.toInt with
      | ofNat n => rfl
      | negSucc n =>
          have same : toString (Int.negSucc n) = "-" ++ toString (n + 1) := rfl
          rw [same, String.toList_append, if_pos (by simp)]
          rfl
  | uint u => exact (isNumber_toString u.toNat).operand rfl
  | half x => exact readsAs_halfLiteral x
  | float x => exact readsAs_floatLiteral x

/-! ### Strings -/

/-- In a string any character but a line end, a quote and a backslash stands for itself. -/
theorem scan_plain {c : Char} (hc : c ≠ '\n' ∧ c ≠ '\r' ∧ c ≠ '"' ∧ c ≠ '\\') (text b : List Char) :
    scan (.string text false) (c :: b) = scan (.string (text ++ [c]) false) b := by
  apply scan_continued
  simp [Pending.continued, hc]

theorem scan_backslash {c : Char} (hc : c ≠ '\n' ∧ c ≠ '\r') (text b : List Char) :
    scan (.string text false) ('\\' :: c :: b) = scan (.string (text ++ ['\\', c]) false) b := by
  have opened : (Pending.string text false).continued '\\' =
      some (.string (text ++ ['\\']) true) := rfl
  have closed : (Pending.string (text ++ ['\\']) true).continued c =
      some (.string (text ++ ['\\'] ++ [c]) false) := by
    simp [Pending.continued, hc]
  rw [scan_continued opened, scan_continued closed, List.append_assoc]
  rfl

theorem octalDigit_plain (n : Nat) : Text.Quoted.octalDigit n ≠ '\n' ∧
    Text.Quoted.octalDigit n ≠ '\r' ∧ Text.Quoted.octalDigit n ≠ '"' ∧
    Text.Quoted.octalDigit n ≠ '\\' := by
  have digits : ∀ k < 8, Char.ofNat ('0'.toNat + k) ≠ '\n' ∧ Char.ofNat ('0'.toNat + k) ≠ '\r' ∧
      Char.ofNat ('0'.toNat + k) ≠ '"' ∧ Char.ofNat ('0'.toNat + k) ≠ '\\' := by decide
  exact digits (n % 8) (Nat.mod_lt n (by decide))

theorem scan_escape (byte : UInt8) (text b : List Char) :
    scan (.string text false) (Text.Quoted.escape byte ++ b) =
      scan (.string (text ++ Text.Quoted.escape byte) false) b := by
  unfold Text.Quoted.escape
  split
  · exact scan_backslash (by decide) text b
  split
  · exact scan_backslash (by decide) text b
  split
  · exact scan_backslash (by decide) text b
  split
  · exact scan_backslash (by decide) text b
  split
  · exact scan_backslash (by decide) text b
  split
  · rename_i hslash hquote _ _ _ hprintable
    have printable : ∀ n < 127, n < 32 ∨ n = 92 ∨ n = 34 ∨ (Char.ofNat n ≠ '\n' ∧
        Char.ofNat n ≠ '\r' ∧ Char.ofNat n ≠ '"' ∧ Char.ofNat n ≠ '\\') := by decide
    have low : 32 ≤ byte.toNat := hprintable.1
    have high : byte.toNat ≤ 126 := hprintable.2
    rcases printable byte.toNat (by omega) with h | h | h | hplain
    · omega
    · exact absurd (UInt8.toNat_inj.mp h) hslash
    · exact absurd (UInt8.toNat_inj.mp h) hquote
    · exact scan_plain hplain text b
  · have first := octalDigit_plain (byte.toNat / 64)
    rw [Text.Quoted.octal, List.cons_append, List.cons_append,
      scan_backslash ⟨first.1, first.2.1⟩, List.cons_append,
      scan_plain (octalDigit_plain _), List.cons_append, scan_plain (octalDigit_plain _)]
    simp

theorem scan_escapes (bytes : List UInt8) (text b : List Char) :
    scan (.string text false) (bytes.flatMap Text.Quoted.escape ++ b) =
      scan (.string (text ++ bytes.flatMap Text.Quoted.escape) false) b := by
  induction bytes generalizing text with
  | nil => simp
  | cons byte rest ih =>
      rw [List.flatMap_cons, List.append_assoc, scan_escape, ih, List.append_assoc]

theorem lex_quoted (s : String) : lex (Text.Quoted.encode s).toList =
    some [.string (Text.Quoted.encode s).toList] := by
  have next : Pending.blank.next '"' = some ([], .string ['"'] false) := rfl
  have closed (text : List Char) : (Pending.string text false).continued '"' =
      some (.closed (text ++ ['"'])) := rfl
  have content := scan_escapes (Text.Quoted.bytes s) ['"'] ['"']
  rw [scan_continued (closed _)] at content
  rw [Text.Quoted.encode, String.toList_ofList]
  exact scan_cons next content

theorem readsAs_literal (l : Literal) : ReadsAs l.text l.tree := by
  cases l with
  | scalar v => exact readsAs_value v
  | string s =>
      have chars : (Text.Quoted.encode s).toList =
          '"' :: ((Text.Quoted.bytes s).flatMap Text.Quoted.escape ++ ['"']) := by
        rw [Text.Quoted.encode, String.toList_ofList, List.cons_append]
      exact ⟨[], _, ⟨⟨_, lex_quoted s, fun _ => rfl⟩, ⟨'"', _, chars, by decide⟩, rfl⟩, rfl⟩

end Cpp
end ColorLowering
