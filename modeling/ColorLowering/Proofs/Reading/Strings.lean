import ColorLowering.Text.Quoted
import Mathlib.Tactic.SplitIfs

/-!
# String literals

A string literal is read as in C++, one character at a time. Outside of escapes a character stands
for its UTF-8 bytes and a quote ends the literal. An octal escape goes on for as long as there are
octal digits, but for no more than three. Trigraphs are not replaced.
-/
namespace ColorLowering

namespace Cpp

def octalValue? (c : Char) : Option Nat :=
  if '0' ≤ c ∧ c ≤ '7' then some (c.toNat - '0'.toNat) else none

def simpleEscape? : Char → Option UInt8
  | '\x27' => some 0x27
  | '"' => some 0x22
  | '?' => some 0x3f
  | '\\' => some 0x5c
  | 'a' => some 0x07
  | 'b' => some 0x08
  | 'f' => some 0x0c
  | 'n' => some 0x0a
  | 'r' => some 0x0d
  | 't' => some 0x09
  | 'v' => some 0x0b
  | _ => none

/-- Where a reader of a literal stands after its opening quote. -/
inductive StringPlace where
  | plain
  | escape
  /-- An octal escape with the value of its digits so far and their number. -/
  | octal (value digits : Nat)
  | closed
  deriving DecidableEq

namespace StringPlace

/-- The bytes that a character completes outside of escapes, and where the reader stands then. -/
def plainNext (c : Char) : Option (List UInt8 × StringPlace) :=
  if c = '"' then some ([], closed)
  else if c = '\\' then some ([], escape)
  else if c = '\n' ∨ c = '\r' then none
  else some (String.utf8EncodeChar c, plain)

/-- An octal escape ends at the first character that it cannot take, which is read by itself. -/
def next : StringPlace → Char → Option (List UInt8 × StringPlace)
  | plain, c => plainNext c
  | escape, c =>
    match octalValue? c with
    | some digit => some ([], octal digit 1)
    | none => (simpleEscape? c).map fun byte => ([byte], plain)
  | octal value digits, c =>
    match if digits < 3 then octalValue? c else none with
    | some digit => some ([], octal (8 * value + digit) (digits + 1))
    | none => do
      let (bytes, place) ← plainNext c
      if value < 256 then some (.ofNat value :: bytes, place) else none
  | closed, _ => none

def read : StringPlace → List Char → Option (List UInt8)
  | closed, [] => some []
  | _, [] => none
  | place, c :: rest => do
    let (bytes, place') ← place.next c
    return bytes ++ (← place'.read rest)

end StringPlace

/-- The bytes that a string literal stands for. -/
def decodeString (text : String) : Option (List UInt8) :=
  match text.toList with
  | '"' :: rest => StringPlace.plain.read rest
  | _ => none

/-- The positions of the quotes that no backslash escapes. -/
def bareQuotes (position : Nat) (escaped : Bool) : List Char → List Nat
  | [] => []
  | c :: rest =>
    if escaped then bareQuotes (position + 1) false rest
    else if c = '"' then position :: bareQuotes (position + 1) false rest
    else bareQuotes (position + 1) (c == '\\') rest

/-- Neither a control character nor outside of ASCII. -/
def isPrintable (c : Char) : Bool := ' ' ≤ c && c ≤ '~'

theorem octalValue?_octalDigit (n : Nat) :
    octalValue? (Text.Quoted.octalDigit n) = some (n % 8) := by
  have digits : ∀ k < 8, octalValue? (Char.ofNat ('0'.toNat + k)) = some k := by decide
  exact digits (n % 8) (Nat.mod_lt n (by decide))

theorem isPrintable_octalDigit (n : Nat) : isPrintable (Text.Quoted.octalDigit n) ∧
    Text.Quoted.octalDigit n ≠ '"' ∧ Text.Quoted.octalDigit n ≠ '\\' := by
  have digits : ∀ k < 8, isPrintable (Char.ofNat ('0'.toNat + k)) ∧
      Char.ofNat ('0'.toNat + k) ≠ '"' ∧ Char.ofNat ('0'.toNat + k) ≠ '\\' := by decide
  exact digits (n % 8) (Nat.mod_lt n (by decide))

namespace StringPlace

variable {c : Char} {bytes : List UInt8} {place place' : StringPlace}

theorem read_cons (h : place.next c = some (bytes, place')) (rest : List Char) :
    place.read (c :: rest) = (place'.read rest).map (bytes ++ ·) := by
  cases hread : place'.read rest <;> simp [read, h, hread]

theorem read_part (h : place.next c = some ([], place')) (rest : List Char) :
    place.read (c :: rest) = place'.read rest := by
  rw [read_cons h]
  cases place'.read rest <;> rfl

theorem read_simple {byte : UInt8} (hc : octalValue? c = none)
    (hbyte : simpleEscape? c = some byte) (rest : List Char) :
    plain.read ('\\' :: c :: rest) = (plain.read rest).map (byte :: ·) := by
  have opened : plain.next '\\' = some ([], escape) := rfl
  have closed : escape.next c = some ([byte], plain) := by simp [next, hc, hbyte]
  rw [read_part opened, read_cons closed]
  rfl

/-- Three digits complete an octal escape, whatever comes next. -/
theorem read_octal_complete (byte : UInt8) (rest : List Char) (hrest : rest ≠ []) :
    (octal byte.toNat 3).read rest = (plain.read rest).map (byte :: ·) := by
  obtain ⟨c, rest, rfl⟩ := List.exists_cons_of_ne_nil hrest
  have small : byte.toNat < 256 := byte.toNat_lt
  cases hc : plainNext c with
  | none => simp [read, next, hc]
  | some completed =>
      obtain ⟨bytes, place⟩ := completed
      have after : plain.next c = some (bytes, place) := hc
      have before : (octal byte.toNat 3).next c = some (byte :: bytes, place) := by
        simp [next, hc, small]
      rw [read_cons after, read_cons before, Option.map_map]
      rfl

theorem read_octal (byte : UInt8) (rest : List Char) (hrest : rest ≠ []) :
    plain.read (Text.Quoted.octal byte ++ rest) = (plain.read rest).map (byte :: ·) := by
  have opened : plain.next '\\' = some ([], escape) := rfl
  have first : escape.next (Text.Quoted.octalDigit (byte.toNat / 64)) =
      some ([], octal (byte.toNat / 64 % 8) 1) := by
    simp [next, octalValue?_octalDigit]
  have second : (octal (byte.toNat / 64 % 8) 1).next (Text.Quoted.octalDigit (byte.toNat / 8)) =
      some ([], octal (8 * (byte.toNat / 64 % 8) + byte.toNat / 8 % 8) 2) := by
    simp [next, octalValue?_octalDigit]
  have whole : 8 * (8 * (byte.toNat / 64 % 8) + byte.toNat / 8 % 8) + byte.toNat % 8 =
      byte.toNat := by
    have := byte.toNat_lt
    omega
  have third : (octal (8 * (byte.toNat / 64 % 8) + byte.toNat / 8 % 8) 2).next
      (Text.Quoted.octalDigit byte.toNat) = some ([], octal byte.toNat 3) := by
    simp [next, octalValue?_octalDigit, whole]
  rw [Text.Quoted.octal]
  simp only [List.cons_append, List.nil_append]
  rw [read_part opened, read_part first, read_part second, read_part third,
    read_octal_complete byte rest hrest]

end StringPlace

/-- The three ways in which a byte is written. -/
inductive Writes (byte : UInt8) : List Char → Prop where
  | simple {c : Char} (noDigit : octalValue? c = none) (meaning : simpleEscape? c = some byte)
    (printable : isPrintable c) : Writes byte ['\\', c]
  | plain {c : Char} (meaning : StringPlace.plainNext c = some ([byte], .plain))
    (printable : isPrintable c) (bare : c ≠ '"' ∧ c ≠ '\\') : Writes byte [c]
  | octal : Writes byte (Text.Quoted.octal byte)

theorem writes_escape (byte : UInt8) : Writes byte (Text.Quoted.escape byte) := by
  have printable : ∀ n < 127, n < 32 ∨ n = 92 ∨ n = 34 ∨
      (StringPlace.plainNext (Char.ofNat n) = some ([.ofNat n], .plain) ∧
        isPrintable (Char.ofNat n) ∧ Char.ofNat n ≠ '"' ∧ Char.ofNat n ≠ '\\') := by decide
  unfold Text.Quoted.escape
  split_ifs with hslash hquote hline htab hreturn hprintable
  · exact .simple rfl (by rw [hslash]; rfl) rfl
  · exact .simple rfl (by rw [hquote]; rfl) rfl
  · exact .simple rfl (by rw [hline]; rfl) rfl
  · exact .simple rfl (by rw [htab]; rfl) rfl
  · exact .simple rfl (by rw [hreturn]; rfl) rfl
  · have low : 32 ≤ byte.toNat := hprintable.1
    have high : byte.toNat ≤ 126 := hprintable.2
    rcases printable byte.toNat (by omega) with h | h | h | ⟨hmeaning, hchar, hbare⟩
    · omega
    · exact absurd (UInt8.toNat_inj.mp h) hslash
    · exact absurd (UInt8.toNat_inj.mp h) hquote
    · rw [UInt8.ofNat_toNat] at hmeaning
      exact .plain hmeaning hchar hbare
  · exact .octal

section
variable {byte : UInt8} {cs : List Char}

/-- Whatever way a byte is written, the reader is outside of escapes when the next one begins. -/
theorem Writes.read (h : Writes byte cs) (rest : List Char) (hrest : rest ≠ []) :
    StringPlace.plain.read (cs ++ rest) = (StringPlace.plain.read rest).map (byte :: ·) := by
  cases h with
  | simple hdigit hmeaning => exact StringPlace.read_simple hdigit hmeaning rest
  | plain hmeaning =>
      exact StringPlace.read_cons (show StringPlace.plain.next _ = _ from hmeaning) rest
  | octal => exact StringPlace.read_octal byte rest hrest

theorem Writes.all_printable (h : Writes byte cs) : cs.all isPrintable := by
  have backslash : isPrintable '\\' := rfl
  cases h with
  | simple _ _ hprintable => simp [backslash, hprintable]
  | plain _ hprintable => simp [hprintable]
  | octal => simp [Text.Quoted.octal, backslash, isPrintable_octalDigit]

/-- No quote in it stands by itself, and what follows begins outside of escapes. -/
theorem Writes.bareQuotes (h : Writes byte cs) (position : Nat) (rest : List Char) :
    Cpp.bareQuotes position false (cs ++ rest) =
      Cpp.bareQuotes (position + cs.length) false rest := by
  have digits (n : Nat) := (isPrintable_octalDigit n).2
  cases h with
  | simple => simp [Cpp.bareQuotes]
  | plain _ _ hbare => simp [Cpp.bareQuotes, hbare, beq_eq_false_iff_ne.mpr hbare.2]
  | octal =>
      have last := beq_eq_false_iff_ne.mpr (digits byte.toNat).2
      simp [Text.Quoted.octal, Cpp.bareQuotes, digits, last]

end

theorem read_escapes (bytes : List UInt8) :
    StringPlace.plain.read (bytes.flatMap Text.Quoted.escape ++ ['"']) = some bytes := by
  induction bytes with
  | nil => rfl
  | cons byte bytes ih =>
      rw [List.flatMap_cons, List.append_assoc, (writes_escape byte).read _ (by simp), ih]
      rfl

theorem bareQuotes_escapes (position : Nat) (bytes : List UInt8) :
    bareQuotes position false (bytes.flatMap Text.Quoted.escape ++ ['"']) =
      [position + (bytes.flatMap Text.Quoted.escape).length] := by
  induction bytes generalizing position with
  | nil => rfl
  | cons byte bytes ih =>
      rw [List.flatMap_cons, List.append_assoc, (writes_escape byte).bareQuotes, ih,
        List.length_append, Nat.add_assoc]

end Cpp

namespace Text.Quoted

theorem bytes_eq_toUTF8 (s : String) : bytes s = s.toUTF8.data.toList := by
  rw [String.toUTF8_eq_toByteArray, ← String.utf8Encode_toList, List.utf8Encode,
    List.toList_data_toByteArray, bytes]

theorem toList_encode (s : String) :
    (encode s).toList = '"' :: ((bytes s).flatMap escape ++ ['"']) := by
  rw [encode, String.toList_ofList, List.cons_append]

theorem decodeString_encode (s : String) :
    Cpp.decodeString (encode s) = some s.toUTF8.data.toList := by
  rw [Cpp.decodeString, toList_encode, ← bytes_eq_toUTF8]
  exact Cpp.read_escapes (bytes s)

theorem all_printable_encode (s : String) : (encode s).toList.all Cpp.isPrintable := by
  have content : ((bytes s).flatMap escape).all Cpp.isPrintable := by
    rw [List.all_flatMap, List.all_eq_true]
    exact fun byte _ => (Cpp.writes_escape byte).all_printable
  rw [toList_encode, List.all_cons, List.all_append, content]
  rfl

theorem bareQuotes_encode (s : String) :
    Cpp.bareQuotes 0 false (encode s).toList = [0, (encode s).toList.length - 1] := by
  rw [toList_encode]
  have content := Cpp.bareQuotes_escapes 1 (bytes s)
  simp [Cpp.bareQuotes, content, Nat.add_comm]

/-- The bytes of two different texts differ. -/
theorem encode_injective : Function.Injective encode := by
  intro s s' h
  have decoded := congrArg Cpp.decodeString h
  rw [decodeString_encode, decodeString_encode, Option.some.injEq, Array.toList_inj] at decoded
  exact String.toByteArray_inj.mp (ByteArray.ext decoded)

/-- A string literal stands for the text that it is made from. It begins and ends with a quote and
has no other that would end it, all its characters are printable, C++ reads the UTF-8 bytes of the
text from it, and no other text has this literal. -/
theorem literal_reads_back (s : String) :
    (∃ content, (encode s).toList = '"' :: (content ++ ['"']) ∧
      Cpp.bareQuotes 0 false (encode s).toList = [0, content.length + 1]) ∧
    (encode s).toList.all Cpp.isPrintable ∧
    Cpp.decodeString (encode s) = some s.toUTF8.data.toList ∧
    ∀ s', encode s' = encode s → s' = s := by
  refine ⟨⟨(bytes s).flatMap escape, toList_encode s, ?_⟩, all_printable_encode s,
    decodeString_encode s, fun s' h => encode_injective h⟩
  rw [bareQuotes_encode, toList_encode]
  simp

end Text.Quoted
end ColorLowering
