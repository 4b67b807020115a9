/-!
# Quoted text

A text is written as the bytes of its UTF-8 form between double quotes. Printable ASCII stands for
itself, the backslash, the quote, newline, tab and carriage return have two-character escapes, and
any other byte is a backslash with three octal digits, so that no following digit can join it.
-/
namespace ColorLowering.Text.Quoted

def octalDigit (n : Nat) : Char := Char.ofNat ('0'.toNat + n % 8)

def octal (b : UInt8) : List Char :=
  ['\\', octalDigit (b.toNat / 64), octalDigit (b.toNat / 8), octalDigit b.toNat]

def escape (b : UInt8) : List Char :=
  if b = 92 then ['\\', '\\']
  else if b = 34 then ['\\', '"']
  else if b = 10 then ['\\', 'n']
  else if b = 9 then ['\\', 't']
  else if b = 13 then ['\\', 'r']
  else if 32 ≤ b ∧ b ≤ 126 then [Char.ofNat b.toNat]
  else octal b

def bytes (s : String) : List UInt8 :=
  s.toList.flatMap String.utf8EncodeChar

def encode (s : String) : String :=
  String.ofList ('"' :: (bytes s).flatMap escape ++ ['"'])

end ColorLowering.Text.Quoted
