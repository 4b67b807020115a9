import ColorLowering.Aggregate.Assignments

/-!
# Objects and the statements that fill them in

An object of a type of the target has its members, and its elements where their number is fixed; a
container starts empty. A statement runs only if its path leads somewhere, and then only if it
makes a container no smaller, writes a scalar that was not written before, or constructs a native
vector of which nothing was written before. What was written once is there to stay.
-/
namespace ColorLowering

inductive TargetType where
  | scalar (spelling : String)
  | native (spelling : String) (shape : NativeShape)
  | raw (element : String) (size : Nat)
  | container (elem : TargetType)
  | struct (name : String) (members : List (String × TargetType))

namespace TargetType

def spell : TargetType → Spelling
  | .scalar spelling => ⟨spelling, ""⟩
  | .native spelling _ => ⟨spelling, ""⟩
  | .raw element size => ⟨element, "[" ++ toString size ++ "]"⟩
  | .container elem => ⟨"std::vector< " ++ elem.spell.base ++ " >", ""⟩
  | .struct name _ => ⟨name, ""⟩

end TargetType

namespace Target

mutual
/-- The type that a declaration spells, inside a container or not. -/
def lowered (t : Target) : Ty → Bool → TargetType
  | .array elem size, inContainer =>
    match t.arrayForm elem size inContainer with
    | .native spelling shape => .native spelling shape
    | .raw scalar size => .raw scalar size
    | .container _ => .container (t.lowered elem true)
  | .struct name members, _ => .struct (Text.unqualified name) (t.loweredMembers members)
  | ty, inContainer => .scalar (t.spell ty inContainer).base

def loweredMembers (t : Target) : List (String × Ty) → List (String × TargetType)
  | [] => []
  | (name, ty) :: rest => (name, t.lowered ty false) :: t.loweredMembers rest
end

theorem spell_lowered (t : Target) : (ty : Ty) → ∀ inContainer,
    (t.lowered ty inContainer).spell = t.spell ty inContainer
  | .void, _ | .scalar _, _ | .string, _ | .struct _ _, _ => by
    simp only [lowered, TargetType.spell, spell]
  | .array elem size, inContainer => by
    rw [lowered, spell]
    cases t.arrayForm elem size inContainer with
    | native spelling shape => rfl
    | raw scalar size => rfl
    | container e =>
        dsimp only
        rw [TargetType.spell, spell_lowered t elem true]

end Target

inductive CellKind where
  | native (spelling : String)
  | fixed
  | container (elem : TargetType)

/-- A scalar that was not written has no value. -/
inductive Object where
  | scalar (value : Option String)
  | cells (kind : CellKind) (items : List Object)
  | struct (fields : List (String × Object))

namespace TargetType

def unwritten (count : Nat) : List Object := List.replicate count (.scalar none)

mutual
def fresh : TargetType → Object
  | .scalar _ => .scalar none
  | .native spelling (.vector arity) => .cells (.native spelling) (unwritten arity)
  | .native _ (.matrix order) =>
    .cells .fixed (List.replicate order (.cells .fixed (unwritten order)))
  | .raw _ size => .cells .fixed (unwritten size)
  | .container elem => .cells (.container elem) []
  | .struct _ members => .struct (freshFields members)

def freshFields : List (String × TargetType) → List (String × Object)
  | [] => []
  | (name, ty) :: rest => (name, ty.fresh) :: freshFields rest
end

end TargetType

namespace Object

def lookupField (name : String) : List (String × Object) → Option Object
  | [] => none
  | (other, o) :: rest => if other = name then some o else lookupField name rest

def setField (name : String) (o : Object) : List (String × Object) → List (String × Object)
  | [] => []
  | (other, old) :: rest =>
    if other = name then (other, o) :: rest else (other, old) :: setField name o rest

theorem setField_lookupField {name : String} {o : Object} {fields : List (String × Object)}
    (h : lookupField name fields = some o) : setField name o fields = fields := by
  induction fields with
  | nil => rfl
  | cons field rest ih =>
      obtain ⟨other, old⟩ := field
      by_cases hname : other = name
      · simp only [lookupField, setField, if_pos hname] at h ⊢
        rw [Option.some.inj h]
      · simp only [lookupField, setField, if_neg hname] at h ⊢
        rw [ih h]

theorem lookupField_setField {name : String} {o new : Object} {fields : List (String × Object)}
    (h : lookupField name fields = some o) :
    lookupField name (setField name new fields) = some new := by
  induction fields with
  | nil => cases h
  | cons field rest ih =>
      obtain ⟨other, old⟩ := field
      by_cases hname : other = name
      · simp only [setField, if_pos hname, lookupField]
      · simp only [lookupField, setField, if_neg hname] at h ⊢
        exact ih h

theorem setField_setField (name : String) (first second : Object)
    (fields : List (String × Object)) :
    setField name second (setField name first fields) = setField name second fields := by
  induction fields with
  | nil => rfl
  | cons field rest ih =>
      obtain ⟨other, old⟩ := field
      by_cases hname : other = name
      · simp only [setField, if_pos hname]
      · simp only [setField, if_neg hname, ih]

def child : Object → PathStep → Option Object
  | .cells _ items, .index i => items[i]?
  | .struct fields, .member name => lookupField name fields
  | _, _ => none

def setChild : Object → PathStep → Object → Object
  | .cells kind items, .index i, new => .cells kind (items.set i new)
  | .struct fields, .member name, new => .struct (setField name new fields)
  | o, _, _ => o

theorem setChild_child {o c : Object} {step : PathStep} (h : o.child step = some c) :
    o.setChild step c = o := by
  cases o with
  | scalar value => rfl
  | cells kind items =>
      cases step with
      | index i =>
          obtain ⟨hi, hitem⟩ := List.getElem?_eq_some_iff.mp h
          rw [setChild, ← hitem, List.set_getElem_self]
      | member name => rfl
  | struct fields =>
      cases step with
      | index i => rfl
      | member name => rw [setChild, setField_lookupField h]

theorem child_setChild {o c : Object} {step : PathStep} (h : o.child step = some c)
    (new : Object) : (o.setChild step new).child step = some new := by
  cases o with
  | scalar value => cases h
  | cells kind items =>
      cases step with
      | index i =>
          obtain ⟨hi, -⟩ := List.getElem?_eq_some_iff.mp h
          simp [setChild, child, hi]
      | member name => cases h
  | struct fields =>
      cases step with
      | index i => cases h
      | member name =>
          rw [setChild, child]
          exact lookupField_setField h

theorem setChild_setChild (o first second : Object) (step : PathStep) :
    (o.setChild step first).setChild step second = o.setChild step second := by
  cases o with
  | scalar value => rfl
  | cells kind items =>
      cases step with
      | index i => simp [setChild]
      | member name => rfl
  | struct fields =>
      cases step with
      | index i => rfl
      | member name => rw [setChild, setChild, setField_setField]; rfl

end Object
end ColorLowering
