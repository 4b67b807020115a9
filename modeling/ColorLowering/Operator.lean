/-!
# Operators
-/
namespace ColorLowering

inductive BinaryOp where
  | add | sub | mul | div | mod
  | eq | ne | lt | le | gt | ge
  | and | or
  | bitAnd | bitOr | bitXor | shl | shr
  deriving DecidableEq

inductive UnaryOp where
  | neg | not | bitNot
  deriving DecidableEq

namespace BinaryOp

def token : BinaryOp → String
  | add => "+"
  | sub => "-"
  | mul => "*"
  | div => "/"
  | mod => "%"
  | eq => "=="
  | ne => "!="
  | lt => "<"
  | le => "<="
  | gt => ">"
  | ge => ">="
  | and => "&&"
  | or => "||"
  | bitAnd => "&"
  | bitOr => "|"
  | bitXor => "^"
  | shl => "<<"
  | shr => ">>"

def isComparison : BinaryOp → Bool
  | eq | ne | lt | le | gt | ge => true
  | _ => false

end BinaryOp

def UnaryOp.token : UnaryOp → String
  | neg => "-"
  | not => "!"
  | bitNot => "~"

end ColorLowering
