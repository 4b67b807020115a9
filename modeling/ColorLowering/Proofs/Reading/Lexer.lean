import ColorLowering.Operator

/-!
# Tokens of an expression

The text of an expression is cut into tokens of C++, each as long as it can be. Blanks and line ends
separate tokens and are no part of them. What no expression here is written with is refused: another
kind of literal, a prefix or suffix of a string, an unfinished string.
-/
namespace ColorLowering.Cpp

/-- The dollar sign counts as a letter, and so does every character beyond ASCII. -/
def isLetter (c : Char) : Bool := c.isAlpha || c == '_' || c == '$' || decide (127 < c.toNat)

def isNameChar (c : Char) : Bool := isLetter c || c.isDigit

def isBlank (c : Char) : Bool := c == ' ' || c == '\n' || c == '\t' || c == '\r'

/-- The reserved words that begin with a letter, alternative spellings of operators included. -/
def reserved : Char → List String
  | 'a' => ["alignas", "alignof", "and", "and_eq", "asm", "auto"]
  | 'b' => ["bitand", "bitor", "bool", "break"]
  | 'c' => ["case", "catch", "char", "char8_t", "char16_t", "char32_t", "class", "co_await",
    "co_return", "co_yield", "compl", "concept", "const", "const_cast", "consteval", "constexpr",
    "constinit", "continue"]
  | 'd' => ["decltype", "default", "delete", "do", "double", "dynamic_cast"]
  | 'e' => ["else", "enum", "explicit", "export", "extern"]
  | 'f' => ["false", "float", "for", "friend"]
  | 'g' => ["goto"]
  | 'i' => ["if", "inline", "int"]
  | 'l' => ["long"]
  | 'm' => ["mutable"]
  | 'n' => ["namespace", "new", "noexcept", "not", "not_eq", "nullptr"]
  | 'o' => ["operator", "or", "or_eq"]
  | 'p' => ["private", "protected", "public"]
  | 'r' => ["register", "reinterpret_cast", "requires", "return"]
  | 's' => ["short", "signed", "sizeof", "static", "static_assert", "static_cast", "struct",
    "switch"]
  | 't' => ["template", "this", "thread_local", "throw", "true", "try", "typedef", "typeid",
    "typename"]
  | 'u' => ["union", "unsigned", "using"]
  | 'v' => ["virtual", "void", "volatile"]
  | 'w' => ["wchar_t", "while"]
  | 'x' => ["xor", "xor_eq"]
  | _ => []

def isKeyword (cs : List Char) : Bool :=
  cs.head?.any fun c => (reserved c).any fun word => word.toList == cs

/-- Letters and digits that begin with a letter and are not reserved. -/
def isIdentifier (cs : List Char) : Bool :=
  cs.head?.any isLetter && cs.all isNameChar && !isKeyword cs

inductive Sign where
  | openParen | closeParen | openBracket | closeBracket | openBrace | closeBrace
  | comma | dot | qualifier | not | bitNot
  | operator (op : BinaryOp)
  /-- One that no expression here is written with. -/
  | other (text : List Char)
  deriving DecidableEq

inductive Token where
  | identifier (text : List Char)
  | keyword (text : List Char)
  | number (text : List Char)
  | string (text : List Char)
  | sign (s : Sign)
  deriving DecidableEq

namespace Sign

def ofChar : Char → Option Sign
  | '(' => some openParen
  | ')' => some closeParen
  | '[' => some openBracket
  | ']' => some closeBracket
  | '\x7b' => some openBrace
  | '\x7d' => some closeBrace
  | ',' => some comma
  | '.' => some dot
  | '!' => some not
  | '~' => some bitNot
  | '+' => some (operator .add)
  | '-' => some (operator .sub)
  | '*' => some (operator .mul)
  | '/' => some (operator .div)
  | '%' => some (operator .mod)
  | '<' => some (operator .lt)
  | '>' => some (operator .gt)
  | '&' => some (operator .bitAnd)
  | '|' => some (operator .bitOr)
  | '^' => some (operator .bitXor)
  | c => if "=?:;#".toList.contains c then some (other [c]) else none

/-- The signs of more characters. What opens a comment is one of them. -/
def longer : List (List Char × Sign) :=
  [("::", qualifier), ("==", operator .eq), ("!=", operator .ne), ("<=", operator .le),
    (">=", operator .ge), ("&&", operator .and), ("||", operator .or), ("<<", operator .shl),
    (">>", operator .shr)].map (fun sign => (sign.1.toList, sign.2)) ++
  ["++", "--", "->", "->*", ".*", "+=", "-=", "*=", "/=", "%=", "&=", "|=", "^=", "<<=", ">>=",
    "<=>", "##", "<:", ":>", "<%", "%>", "%:", "//", "/*"].map fun text =>
      (text.toList, other text.toList)

def ofLonger (cs : List Char) : Option Sign := (longer.find? (·.1 = cs)).map (·.2)

end Sign

inductive Pending where
  | blank
  | name (text : List Char)
  | number (text : List Char)
  | sign (text : List Char) (s : Sign)
  | string (text : List Char) (escaped : Bool)
  | closed (text : List Char)
  deriving DecidableEq

def Token.ofName (cs : List Char) : Token :=
  if isKeyword cs then .keyword cs else .identifier cs

namespace Pending

def start (c : Char) : Option Pending :=
  if isBlank c then some blank
  else if isLetter c then some (name [c])
  else if c.isDigit then some (number [c])
  else if c = '"' then some (string [c] false)
  else (Sign.ofChar c).map (sign [c])

/-- The token that has begun, if it may end here. -/
def finish : Pending → Option (List Token)
  | blank => some []
  | name cs => some [.ofName cs]
  | number cs => some [.number cs]
  | sign _ s => some [.sign s]
  | string _ _ => none
  | closed cs => some [.string cs]

def continuesNumber (cs : List Char) (c : Char) : Bool :=
  isNameChar c || c == '.' || ((c == '+' || c == '-') &&
    cs.getLast?.any fun e => e == 'e' || e == 'E' || e == 'p' || e == 'P')

def continued : Pending → Char → Option Pending
  | name cs, c => if isNameChar c then some (name (cs ++ [c])) else none
  | number cs, c => if continuesNumber cs c then some (number (cs ++ [c])) else none
  | sign cs _, c =>
    if cs = ['.'] ∧ c.isDigit then some (number (cs ++ [c]))
    else (Sign.ofLonger (cs ++ [c])).map (sign (cs ++ [c]))
  | string cs escaped, c =>
    if c = '\n' ∨ c = '\r' then none
    else if escaped then some (string (cs ++ [c]) false)
    else if c = '"' then some (closed (cs ++ [c]))
    else some (string (cs ++ [c]) (c == '\\'))
  | _, _ => none

/-- No token follows another directly where it could be taken for a part of it. -/
def runsInto : Pending → Char → Bool
  | name _, c => c == '"'
  | number _, c => c == '"'
  | closed _, c => isLetter c
  | _, _ => false

/-- The tokens that the character completes, and the one that has begun by then. -/
def next (p : Pending) (c : Char) : Option (List Token × Pending) :=
  match p.continued c with
  | some q => some ([], q)
  | none => if p.runsInto c then none else do return (← p.finish, ← start c)

end Pending

def scan : Pending → List Char → Option (List Token)
  | p, [] => p.finish
  | p, c :: rest => do
    let (done, q) ← p.next c
    return done ++ (← scan q rest)

def lex (cs : List Char) : Option (List Token) := scan .blank cs

example : lex "-f( a.b, 1.5e-7 ) <= !x".toList =
    some [.sign (.operator .sub), .identifier ['f'], .sign .openParen, .identifier ['a'],
      .sign .dot, .identifier ['b'], .sign .comma, .number "1.5e-7".toList, .sign .closeParen,
      .sign (.operator .le), .sign .not, .identifier ['x']] := by decide

end ColorLowering.Cpp
