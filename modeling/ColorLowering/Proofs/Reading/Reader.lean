import ColorLowering.Proofs.Reading.Lexer

/-!
# Reading an expression

Tokens are read from left to right into a tree, by the precedence of the operators of C++: what
follows an operand binds closer than a prefix, a prefix closer than any binary operator, and equal
binary operators associate to the left. The operators, brackets and lists that are open at a place
are kept on a stack. Angle brackets are template brackets after `static_cast` and after
`std::vector`, and nowhere else. A construction `T( x )` reads as a call of `T`, which it is in the
grammar as long as the names are not resolved.
-/
namespace ColorLowering.Cpp

inductive Tree where
  | literal (text : List Char)
  | name (path : List (List Char))
  | unary (op : UnaryOp) (operand : Tree)
  | binary (op : BinaryOp) (left right : Tree)
  | index (array position : Tree)
  | member (object : Tree) (name : List Char)
  | apply (head : Tree) (args : List Tree)
  | cast (ty : List Token) (operand : Tree)
  /-- The type of a vector. -/
  | vector (elem : List Token)
  /-- A list in braces, after a type or as an item of another list. -/
  | list (head : Option Tree) (items : List Tree)

/-- How close a binary operator binds. -/
def level : BinaryOp → Nat
  | .mul | .div | .mod => 10
  | .add | .sub => 9
  | .shl | .shr => 8
  | .lt | .le | .gt | .ge => 7
  | .eq | .ne => 6
  | .bitAnd => 5
  | .bitXor => 4
  | .bitOr => 3
  | .and => 2
  | .or => 1

inductive Frame where
  | unary (op : UnaryOp)
  | binary (left : Tree) (op : BinaryOp)
  | group
  | index (array : Tree)
  | args (head : Tree) (done : List Tree)
  | cast (ty : List Token)
  | items (head : Option Tree) (done : List Tree)

inductive Mode where
  /-- An operand. -/
  | operand
  /-- What follows the operand. -/
  | after (t : Tree)
  /-- The end of a list that is an item, or the next item. -/
  | item (t : Tree)
  /-- The next part of a qualified name. -/
  | qualified (path : List (List Char))
  | member (object : Tree)
  /-- The brackets after `static_cast`. -/
  | conversion
  /-- The rest of a type in brackets, of which so many are open inside it. -/
  | type (isCast : Bool) (depth : Nat) (ty : List Token)
  /-- The operand of a conversion, in parentheses. -/
  | converted (ty : List Token)

structure Reader where
  stack : List Frame
  mode : Mode

/-- Prefixes, and binary operators that bind at least so close, are complete with the operand. -/
def settle (bound : Nat) : List Frame → Tree → List Frame × Tree
  | .unary op :: rest, t => settle bound rest (.unary op t)
  | .binary left op :: rest, t =>
    if bound ≤ level op then settle bound rest (.binary op left t)
    else (.binary left op :: rest, t)
  | stack, t => (stack, t)

def Tree.isVector : Tree → Bool
  | .name path => path == ["std".toList, "vector".toList]
  | _ => false

def Tree.isType : Tree → Bool
  | .name _ => true
  | .vector _ => true
  | _ => false

namespace Reader

def closed (head : Option Tree) (items : List Tree) : Mode :=
  if head.isSome then .after (.list head items) else .item (.list head items)

def readOperand (stack : List Frame) : Token → Option Reader
  | .identifier cs => some ⟨stack, .after (.name [cs])⟩
  | .number cs => some ⟨stack, .after (.literal cs)⟩
  | .string cs => some ⟨stack, .after (.literal cs)⟩
  | .keyword cs =>
    if cs = "true".toList ∨ cs = "false".toList then some ⟨stack, .after (.literal cs)⟩
    else if cs = "static_cast".toList then some ⟨stack, .conversion⟩
    else none
  | .sign .openParen => some ⟨.group :: stack, .operand⟩
  | .sign (.operator .sub) => some ⟨.unary .neg :: stack, .operand⟩
  | .sign .not => some ⟨.unary .not :: stack, .operand⟩
  | .sign .bitNot => some ⟨.unary .bitNot :: stack, .operand⟩
  | .sign .openBrace =>
    match stack with
    | .items head done :: rest => some ⟨.items none [] :: .items head done :: rest, .operand⟩
    | _ => none
  | .sign .closeParen =>
    match stack with
    | .args head [] :: rest => some ⟨rest, .after (.apply head [])⟩
    | _ => none
  | .sign .closeBrace =>
    match stack with
    | .items head [] :: rest => some ⟨rest, closed head []⟩
    | _ => none
  | _ => none

def readEnd : List Frame × Tree → Sign → Option Reader
  | (.args head done :: rest, t), .comma => some ⟨.args head (done ++ [t]) :: rest, .operand⟩
  | (.items head done :: rest, t), .comma => some ⟨.items head (done ++ [t]) :: rest, .operand⟩
  | (.group :: rest, t), .closeParen => some ⟨rest, .after t⟩
  | (.args head done :: rest, t), .closeParen => some ⟨rest, .after (.apply head (done ++ [t]))⟩
  | (.cast ty :: rest, t), .closeParen => some ⟨rest, .after (.cast ty t)⟩
  | (.index array :: rest, t), .closeBracket => some ⟨rest, .after (.index array t)⟩
  | (.items head done :: rest, t), .closeBrace => some ⟨rest, closed head (done ++ [t])⟩
  | _, _ => none

def readAfter (stack : List Frame) (t : Tree) : Sign → Option Reader
  | .openBracket => some ⟨.index t :: stack, .operand⟩
  | .openParen => some ⟨.args t [] :: stack, .operand⟩
  | .openBrace => if t.isType then some ⟨.items (some t) [] :: stack, .operand⟩ else none
  | .dot => some ⟨stack, .member t⟩
  | .qualifier =>
    match t with
    | .name path => some ⟨stack, .qualified path⟩
    | _ => none
  | .operator op =>
    if op = .lt ∧ t.isVector then some ⟨stack, .type false 0 []⟩
    else
      let (rest, left) := settle (level op) stack t
      some ⟨.binary left op :: rest, .operand⟩
  | s => readEnd (settle 0 stack t) s

def readType (stack : List Frame) (isCast : Bool) (depth : Nat) (ty : List Token) :
    Token → Option Reader
  | .identifier cs => some ⟨stack, .type isCast depth (ty ++ [.identifier cs])⟩
  | .keyword cs => some ⟨stack, .type isCast depth (ty ++ [.keyword cs])⟩
  | .sign .qualifier => some ⟨stack, .type isCast depth (ty ++ [.sign .qualifier])⟩
  | .sign (.operator .lt) =>
    some ⟨stack, .type isCast (depth + 1) (ty ++ [.sign (.operator .lt)])⟩
  | .sign (.operator .gt) =>
    match depth with
    | depth + 1 => some ⟨stack, .type isCast depth (ty ++ [.sign (.operator .gt)])⟩
    | 0 => some ⟨stack, if isCast then .converted ty else .after (.vector ty)⟩
  | _ => none

def step (r : Reader) (token : Token) : Option Reader :=
  match r.mode, token with
  | .operand, _ => readOperand r.stack token
  | .after t, .sign s => readAfter r.stack t s
  | .item t, .sign s => readEnd (r.stack, t) s
  | .qualified path, .identifier cs => some ⟨r.stack, .after (.name (path ++ [cs]))⟩
  | .member object, .identifier cs => some ⟨r.stack, .after (.member object cs)⟩
  | .conversion, .sign (.operator .lt) => some ⟨r.stack, .type true 0 []⟩
  | .type isCast depth ty, _ => readType r.stack isCast depth ty token
  | .converted ty, .sign .openParen => some ⟨.cast ty :: r.stack, .operand⟩
  | _, _ => none

def run (r : Reader) (tokens : List Token) : Option Reader := tokens.foldlM step r

def result (r : Reader) : Option Tree :=
  match r.mode with
  | .after t =>
    match settle 0 r.stack t with
    | ([], t) => some t
    | _ => none
  | _ => none

end Reader

def parse (tokens : List Token) : Option Tree :=
  (Reader.run ⟨[], .operand⟩ tokens).bind Reader.result

def read (text : String) : Option Tree := (lex text.toList).bind parse

example : read "-a[0] + b * f( c ).d" = some (.binary .add
    (.unary .neg (.index (.name [['a']]) (.literal ['0'])))
    (.binary .mul (.name [['b']]) (.member (.apply (.name [['f']]) [.name [['c']]]) ['d']))) := by
  rfl

end ColorLowering.Cpp
