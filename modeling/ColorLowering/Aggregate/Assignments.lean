import ColorLowering.Aggregate.Leaves
import ColorLowering.Ty.Declaration

/-!
# Filling an object by statements

A container is given its size before its elements. A native vector inside a larger object is
assigned as a whole; one that is the object itself, or a row of a matrix, is filled element by
element, as everything else is. Elements in which nothing is left need no statement.
-/
namespace ColorLowering

inductive PathStep where
  | index (i : Nat)
  | member (name : String)
  deriving DecidableEq

/-- The part of the object `root` that the steps lead to. -/
structure AccessPath where
  root : String
  steps : List PathStep
  deriving DecidableEq

def PathStep.text : PathStep → String
  | .index i => "[" ++ toString i ++ "]"
  | .member name => "." ++ name

namespace AccessPath

def text (p : AccessPath) : String := p.root ++ String.join (p.steps.map PathStep.text)

def isRoot (p : AccessPath) : Bool := p.steps.isEmpty

def index (p : AccessPath) (i : Nat) : AccessPath := ⟨p.root, p.steps ++ [.index i]⟩

def member (p : AccessPath) (name : String) : AccessPath := ⟨p.root, p.steps ++ [.member name]⟩

end AccessPath

structure Position where
  inMatrix : Bool
  inContainer : Bool
  deriving DecidableEq

/-- One step of filling an object in. -/
inductive Fill where
  | resize (part : AccessPath) (size : Nat)
  | assign (part : AccessPath) (value : String)
  | construct (part : AccessPath) (spelling : String) (args : List String)

def assignment (target value : String) : String := target ++ " = " ++ value ++ ";"

def resizing (target : String) (size : Nat) : String :=
  target ++ ".resize" ++ parenthesized (toString size) ++ ";"

def Fill.text : Fill → String
  | .resize part size => resizing part.text size
  | .assign part value => assignment part.text value
  | .construct part spelling args =>
    assignment part.text (spelling ++ parenthesized (commaSeparated args))

namespace Target

mutual
def fills (t : Target) : Ty → AccessPath → Position → Leaves (List Fill)
  | .array elem size, path, position =>
    let elements (child : Position) : Leaves (List Fill) :=
      if elem.isVacant then pure []
      else do
        return (← Leaves.repeated (fun i => t.fills elem (path.index i) child) 0
          size).flatten
    match t.arrayForm elem size position.inContainer with
    | .container _ => do return .resize path size :: (← elements ⟨false, true⟩)
    | .native spelling (.vector _) =>
      if path.isRoot || position.inMatrix then elements ⟨false, position.inContainer⟩
      else do
        let args ← Leaves.flat (.array elem size)
        return [.construct path spelling args]
    | .native _ (.matrix _) => elements ⟨true, position.inContainer⟩
    | .raw .. => elements ⟨false, position.inContainer⟩
  | .struct _ members, path, _ => t.fillsMembers members path
  | _, path, _ => do return [.assign path (← Leaves.take)]

def fillsMembers (t : Target) : List (String × Ty) → AccessPath → Leaves (List Fill)
  | [], _ => pure []
  | (name, ty) :: rest, path => do
    let first ← t.fills ty (path.member name) ⟨false, false⟩
    return first ++ (← t.fillsMembers rest path)
end

def fillStatements (t : Target) (ty : Ty) (root : String) : Leaves (List String) := do
  return (← t.fills ty ⟨root, []⟩ ⟨false, false⟩).map Fill.text

mutual
/-- What the elements of an array are not looked at for. -/
theorem fills_of_isVacant (t : Target) :
    (ty : Ty) → ty.isVacant → ∀ path position, t.fills ty path position = pure []
  | .struct _ members, h, path, _ => by
    rw [fills, fillsMembers_of_isVacant t members (by simpa [Ty.isVacant] using h)]
  | .void, h, _, _ | .scalar _, h, _, _ | .string, h, _, _ | .array _ _, h, _, _ => by
    simp [Ty.isVacant] at h

theorem fillsMembers_of_isVacant (t : Target) :
    (members : List (String × Ty)) → Ty.isVacantMembers members →
      ∀ path, t.fillsMembers members path = pure []
  | [], _, _ => by rw [fillsMembers]
  | (_, ty) :: rest, h, path => by
    have both : ty.isVacant ∧ Ty.isVacantMembers rest := by simpa [Ty.isVacantMembers] using h
    rw [fillsMembers, fills_of_isVacant t ty both.1,
      fillsMembers_of_isVacant t rest both.2]
    rfl
end

end Target
end ColorLowering
