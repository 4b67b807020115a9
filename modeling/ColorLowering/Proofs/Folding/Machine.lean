import Mathlib.Data.Int.Bitwise
import ColorLowering.Proofs.Reading.Reader
import ColorLowering.Ty.Basic

/-!
# Whole numbers of the target language

What an expression over literals of whole numbers computes by the rules of C++11 where `int` has 32
bits and `long` has 64. A decimal literal is an `int` if that holds it and a `long` otherwise, never
unsigned. Operands are promoted to `int` at least and brought to one type. Undefined are an overflow
of a signed type, a division by zero, a shift by a negative count or by the width or more, and a
shift to the left of a negative number; a shift to the right keeps the sign.
-/
namespace ColorLowering.Cpp

inductive IntType where
  | bool | int | unsigned | long
  deriving DecidableEq

structure Number where
  ty : IntType
  value : Int
  deriving DecidableEq

namespace IntType

def holds : IntType → Int → Bool
  | bool, n => n = 0 ∨ n = 1
  | int, n => -2 ^ 31 ≤ n ∧ n < 2 ^ 31
  | unsigned, n => 0 ≤ n ∧ n < 2 ^ 32
  | long, n => -2 ^ 63 ≤ n ∧ n < 2 ^ 63

def convert : IntType → Int → Int
  | bool, n => (decide (n ≠ 0)).toInt
  | int, n => n.bmod (2 ^ 32)
  | unsigned, n => n % 2 ^ 32
  | long, n => n.bmod (2 ^ 64)

def promoted : IntType → IntType
  | bool => int
  | t => t

def common (t u : IntType) : IntType :=
  if t = long ∨ u = long then long
  else if t = unsigned ∨ u = unsigned then unsigned
  else int

def width : IntType → Int
  | bool | int | unsigned => 32
  | long => 64

/-- The number `n` as a result of the type: an unsigned one is reduced. -/
def result? (t : IntType) (n : Int) : Option Number :=
  if t = unsigned ∨ t.holds n then some ⟨t, t.convert n⟩ else none

def ofScalar : Scalar → IntType
  | .bool => bool
  | .uint => unsigned
  | _ => int

def ofTokens? (ts : List Token) : Option IntType :=
  if ts = [.keyword "bool".toList] then some bool
  else if ts = [.keyword "int".toList] then some int
  else if ts = [.keyword "unsigned".toList, .keyword "int".toList] then some unsigned
  else none

end IntType

namespace Number

def truth (b : Bool) : Number := ⟨.bool, b.toInt⟩

def cast (t : IntType) (x : Number) : Number := ⟨t, t.convert x.value⟩

def decimal? (n : Nat) : Option Number :=
  if n < 2 ^ 31 then some ⟨.int, n⟩
  else if n < 2 ^ 63 then some ⟨.long, n⟩
  else none

/-- A literal that begins with 0 would be octal. -/
def literal? (cs : List Char) : Option Number :=
  if cs = "true".toList then some (truth true)
  else if cs = "false".toList then some (truth false)
  else if cs.all Char.isDigit ∧ (cs.head?.any (· ≠ '0') ∨ cs = ['0']) then
    decimal? (Nat.ofDigitChars 10 cs 0)
  else none

def unary? (op : UnaryOp) (x : Number) : Option Number :=
  match op with
  | .neg => x.ty.promoted.result? (-x.value)
  | .not => some (truth (x.value = 0))
  | .bitNot => x.ty.promoted.result? x.value.lnot

def arithmetic? (t : IntType) (op : BinaryOp) (a b : Int) : Option Number :=
  match op with
  | .add => t.result? (a + b)
  | .sub => t.result? (a - b)
  | .mul => t.result? (a * b)
  | .div => if b = 0 then none else t.result? (a.tdiv b)
  | .mod => if b = 0 ∨ t.holds (a.tdiv b) = false then none else t.result? (a.tmod b)
  | .bitAnd => t.result? (a.land b)
  | .bitOr => t.result? (a.lor b)
  | .bitXor => t.result? (a.xor b)
  | .eq => some (truth (a = b))
  | .ne => some (truth (a ≠ b))
  | .lt => some (truth (a < b))
  | .le => some (truth (a ≤ b))
  | .gt => some (truth (b < a))
  | .ge => some (truth (b ≤ a))
  | .and | .or | .shl | .shr => none

def shift? (op : BinaryOp) (x : Number) (count : Int) : Option Number :=
  if 0 ≤ count ∧ count < x.ty.promoted.width then
    match op with
    | .shl => if x.value < 0 then none else x.ty.promoted.result? (x.value * 2 ^ count.toNat)
    | _ => some ⟨x.ty.promoted, x.value / 2 ^ count.toNat⟩
  else none

/-- The second operand of `&&` and of `||` is left alone where the first one decides. -/
def binary? (op : BinaryOp) (x? y? : Option Number) : Option Number := do
  let x ← x?
  match op with
  | .and => if x.value = 0 then some (truth false) else return truth ((← y?).value ≠ 0)
  | .or => if x.value = 0 then return truth ((← y?).value ≠ 0) else some (truth true)
  | .shl | .shr => x.shift? op (← y?).value
  | _ =>
    let y ← y?
    let t := x.ty.common y.ty
    arithmetic? t op (t.convert x.value) (t.convert y.value)

end Number

def Tree.compute : Tree → Option Number
  | .literal cs => Number.literal? cs
  | .unary op operand => operand.compute.bind (Number.unary? op)
  | .binary op left right => Number.binary? op left.compute right.compute
  | .cast ty operand => do
    let t ← IntType.ofTokens? ty
    return (← operand.compute).cast t
  | _ => none

def compute? (text : String) : Option Number := (read text).bind Tree.compute

example : compute? "(-1 << 2)" = none := by decide +kernel

example : compute? "static_cast<unsigned int>( (~5 / 2) )" = some ⟨.unsigned, 4294967293⟩ := by
  decide +kernel

/-! ### Numbers that their type holds -/

namespace IntType

variable {t : IntType} {n : Int}

theorem holds_int : int.holds n ↔ -2 ^ 31 ≤ n ∧ n < 2 ^ 31 := decide_eq_true_iff

theorem holds_unsigned : unsigned.holds n ↔ 0 ≤ n ∧ n < 2 ^ 32 := decide_eq_true_iff

theorem holds_long : long.holds n ↔ -2 ^ 63 ≤ n ∧ n < 2 ^ 63 := decide_eq_true_iff

theorem convert_of_holds (h : t.holds n) : t.convert n = n := by
  cases t with
  | bool =>
      rcases (by simpa [holds] using h : n = 0 ∨ n = 1) with rfl | rfl <;> rfl
  | int =>
      rw [holds_int] at h
      exact Int.bmod_eq_of_le (by omega) (by omega)
  | unsigned =>
      rw [holds_unsigned] at h
      exact Int.emod_eq_of_lt h.1 h.2
  | long =>
      rw [holds_long] at h
      exact Int.bmod_eq_of_le (by omega) (by omega)

theorem result?_of_holds (h : t.holds n) : t.result? n = some ⟨t, n⟩ := by
  rw [result?, if_pos (.inr h), convert_of_holds h]

theorem result?_int_of_overflow (h : 2 ^ 31 ≤ n) : int.result? n = none := by
  rw [result?, if_neg]
  rw [holds_int, not_or]
  exact ⟨by decide, by omega⟩

theorem result?_unsigned (n : Int) : unsigned.result? n = some ⟨unsigned, n % 2 ^ 32⟩ := rfl

end IntType

namespace Number

/-- The digits of a number begin with 0 only if it is 0. -/
theorem head_toDigits (n : Nat) (hn : n ≠ 0) :
    (Nat.toDigits 10 n).head?.any (· ≠ '0') = true := by
  have single : ∀ d < 10, d ≠ 0 → [Nat.digitChar d].head?.any (· ≠ '0') = true := by decide
  induction n using Nat.strongRecOn with
  | ind n ih =>
      rw [Nat.toDigits_eq_if (by decide)]
      split
      · exact single n ‹_› hn
      · rename_i hmany
        have shorter := ih (n / 10) (by omega) (by omega)
        rw [List.head?_append]
        cases hhead : (Nat.toDigits 10 (n / 10)).head? with
        | none => simp [hhead] at shorter
        | some c => rwa [hhead] at shorter

theorem literal?_toString (n : Nat) : literal? (toString n).toList = decimal? n := by
  have chars : (toString n).toList = Nat.toDigits 10 n := by simp
  have digits : (Nat.toDigits 10 n).all Char.isDigit := by
    rw [List.all_eq_true]
    exact fun c hc => Nat.isDigit_of_mem_toDigits (by decide) (by decide) hc
  have apart {word : List Char} (hword : word.all Char.isDigit = false) :
      Nat.toDigits 10 n ≠ word := by
    rintro h
    rw [h, hword] at digits
    cases digits
  rw [chars, literal?, if_neg (apart (by decide)), if_neg (apart (by decide)), if_pos,
    Nat.ofDigitChars_toDigits (by decide) (by decide)]
  refine ⟨digits, ?_⟩
  by_cases hn : n = 0
  · rw [hn]
    exact .inr rfl
  · exact .inl (head_toDigits n hn)

end Number
end ColorLowering.Cpp
