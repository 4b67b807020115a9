/-!
# Types

A value has a scalar type, is a string, or is built from fixed-size arrays and structs. The leaves
of a type are the positions left when arrays and structs are taken apart, in declaration order.
-/
namespace ColorLowering

inductive Scalar where
  | bool | int | uint | half | float
  deriving DecidableEq

inductive Ty where
  | void
  | scalar (s : Scalar)
  | string
  | array (elem : Ty) (size : Nat)
  | struct (name : String) (members : List (String × Ty))

namespace Ty

def scalar? : Ty → Option Scalar
  | .scalar s => some s
  | _ => none

def isVoid : Ty → Bool
  | .void => true
  | _ => false

mutual
def leafCount : Ty → Nat
  | .array elem size => elem.leafCount * size
  | .struct _ members => leafCountMembers members
  | _ => 1

def leafCountMembers : List (String × Ty) → Nat
  | [] => 0
  | (_, ty) :: rest => ty.leafCount + leafCountMembers rest
end

mutual
/-- An element is taken apart only if that yields a leaf, however long the array is. -/
def leaves : Ty → List Ty
  | .array elem size =>
    if elem.leafCount * size = 0 then [] else (List.replicate size elem.leaves).flatten
  | .struct _ members => leavesMembers members
  | ty => [ty]

def leavesMembers : List (String × Ty) → List Ty
  | [] => []
  | (_, ty) :: rest => ty.leaves ++ leavesMembers rest
end

mutual
theorem length_leaves : (ty : Ty) → ty.leaves.length = ty.leafCount
  | .void => rfl
  | .scalar _ => rfl
  | .string => rfl
  | .array elem size => by
    unfold leaves
    split
    · simp_all [leafCount]
    · simp [leafCount, length_leaves elem, Nat.mul_comm]
  | .struct _ members => by simp [leaves, leafCount, length_leavesMembers members]

theorem length_leavesMembers :
    (members : List (String × Ty)) → (leavesMembers members).length = leafCountMembers members
  | [] => rfl
  | (_, ty) :: rest => by
    simp [leavesMembers, leafCountMembers, length_leaves ty, length_leavesMembers rest]
end

/-- One more than the greatest number that a machine word holds. -/
def wordSize : Nat := 0x10000000000000000

def inWord? (n : Nat) : Option Nat := if n < wordSize then some n else none

mutual
/-- The number of leaves as it is counted in machine words: there is none if any product or sum on
the way does not fit. -/
def leafCount? : Ty → Option Nat
  | .array elem size => do inWord? ((← elem.leafCount?) * size)
  | .struct _ members => leafCountMembers? members
  | _ => some 1

def leafCountMembers? : List (String × Ty) → Option Nat
  | [] => some 0
  | (_, ty) :: rest => do inWord? ((← ty.leafCount?) + (← leafCountMembers? rest))
end

mutual
/-- Whether nothing is left when structs are taken apart. -/
def isVacant : Ty → Bool
  | .struct _ members => isVacantMembers members
  | _ => false

def isVacantMembers : List (String × Ty) → Bool
  | [] => true
  | (_, ty) :: rest => ty.isVacant && isVacantMembers rest
end

end Ty
end ColorLowering
