import ColorLowering.Proofs.Aggregate.Consumption
import ColorLowering.Proofs.Aggregate.Execution

/-!
# Filling an object in

The statements for an aggregate turn an object of its type that nothing was written to into one of
the same shape, with every container at its size, that holds the texts of the leaves in order.
-/
namespace ColorLowering

namespace Object

mutual
def scalars : Object → List (Option String)
  | .scalar value => [value]
  | .cells _ items => itemScalars items
  | .struct fields => fieldScalars fields

def itemScalars : List Object → List (Option String)
  | [] => []
  | o :: rest => o.scalars ++ itemScalars rest

def fieldScalars : List (String × Object) → List (Option String)
  | [] => []
  | (_, o) :: rest => o.scalars ++ fieldScalars rest
end

mutual
/-- The object with the values of its scalars forgotten. -/
def erased : Object → Object
  | .scalar _ => .scalar none
  | .cells kind items => .cells kind (erasedItems items)
  | .struct fields => .struct (erasedFields fields)

def erasedItems : List Object → List Object
  | [] => []
  | o :: rest => o.erased :: erasedItems rest

def erasedFields : List (String × Object) → List (String × Object)
  | [] => []
  | (name, o) :: rest => (name, o.erased) :: erasedFields rest
end

end Object

namespace Target

mutual
/-- An object of the type in which every container has its size. -/
def sized (t : Target) : Ty → Bool → Object
  | .array elem size, inContainer =>
    match t.arrayForm elem size inContainer with
    | .container _ =>
      .cells (.container (t.lowered elem true)) (List.replicate size (t.sized elem true))
    | _ => (t.lowered (.array elem size) inContainer).fresh
  | .struct _ members, _ => .struct (t.sizedFields members)
  | _, _ => .scalar none

def sizedFields (t : Target) : List (String × Ty) → List (String × Object)
  | [] => []
  | (name, ty) :: rest => (name, t.sized ty false) :: t.sizedFields rest
end

/-- Native vectors and raw arrays have scalar elements, and native matrices are square. -/
theorem arrayForm_cases (t : Target) (elem : Ty) (size : Nat) (inContainer : Bool) :
    (∃ spelling s, t.arrayForm elem size inContainer = .native spelling (.vector size) ∧
      elem = .scalar s) ∨
    (∃ spelling, t.arrayForm elem size inContainer = .native spelling (.matrix size) ∧
      elem = .array (.scalar .float) size ∧ (size = 3 ∨ size = 4)) ∨
    (∃ element s, t.arrayForm elem size inContainer = .raw element size ∧ elem = .scalar s) ∨
    t.arrayForm elem size inContainer = .container elem := by
  have flat (s : Scalar) (vector element : String) :
      (∃ spelling s', flatArrayForm vector element (.scalar s) size inContainer =
        .native spelling (.vector size) ∧ Ty.scalar s = .scalar s') ∨
      (∃ element' s', flatArrayForm vector element (.scalar s) size inContainer =
        .raw element' size ∧ Ty.scalar s = .scalar s') ∨
      flatArrayForm vector element (.scalar s) size inContainer = .container (.scalar s) := by
    unfold flatArrayForm
    by_cases hnative : 2 ≤ size ∧ size ≤ 4
    · rw [if_pos hnative]
      exact .inl ⟨vector, s, rfl, rfl⟩
    · rw [if_neg hnative]
      by_cases hcontainer : size = 0 ∨ inContainer
      · rw [if_pos hcontainer]
        exact .inr (.inr rfl)
      · rw [if_neg hcontainer]
        exact .inr (.inl ⟨element, s, rfl, rfl⟩)
  unfold arrayForm
  split
  · obtain h | h | h := flat .float (t.floatVector size) t.scalarType
    · exact .inl h
    · exact .inr (.inr (.inl h))
    · exact .inr (.inr (.inr h))
  · obtain h | h | h := flat .int (t.intVector size) "int"
    · exact .inl h
    · exact .inr (.inr (.inl h))
    · exact .inr (.inr (.inr h))
  · split
    · rename_i inner h
      obtain ⟨rfl, horder⟩ := h
      exact .inr (.inl ⟨_, rfl, rfl, horder⟩)
    · exact .inr (.inr (.inr rfl))
  · exact .inr (.inr (.inr rfl))

theorem arrayForm_row (t : Target) {order : Nat} (h : order = 3 ∨ order = 4) (inContainer : Bool) :
    t.arrayForm (.scalar .float) order inContainer =
      .native (t.floatVector order) (.vector order) := by
  simp only [arrayForm, flatArrayForm]
  rw [if_pos (by omega)]

end Target

/-- Given as many texts as `width`, the layout takes them all, and its statements turn `start` at
the path into an object that has the shape of `goal` and holds the texts. -/
def Fills (path : AccessPath) (layout : Leaves (List Fill)) (width : Nat) (start goal : Object) :
    Prop :=
  ∀ ts more, ts.length = width → ∃ fs o, layout.run (ts ++ more) = some (fs, more) ∧
    RunsAt path fs start o ∧ o.scalars = ts.map some ∧ o.erased = goal

namespace Fills

theorem assign (path : AccessPath) :
    Fills path (do return [.assign path (← Leaves.take)]) 1 (.scalar none) (.scalar none) := by
  intro ts more hts
  obtain ⟨text, rfl⟩ := List.length_eq_one_iff.mp hts
  refine ⟨[.assign path text], .scalar (some text), rfl, RunsAt.single rfl rfl, ?_, ?_⟩
  · simp [Object.scalars]
  · simp [Object.erased]

theorem elements {path : AccessPath} {layout : Nat → Leaves (List Fill)} {width : Nat}
    {start goal : Object} (kind : CellKind)
    (h : ∀ i, Fills (path.index i) (layout i) width start goal) (count : Nat) :
    ∀ done ts more, ts.length = width * count → ∃ fss items,
      (Leaves.repeated layout (List.length done) count).run (ts ++ more) = some (fss, more) ∧
      RunsAt path fss.flatten (.cells kind (done ++ List.replicate count start))
        (.cells kind (done ++ items)) ∧
      Object.itemScalars items = ts.map some ∧
      Object.erasedItems items = List.replicate count goal := by
  induction count with
  | zero =>
      intro done ts more hts
      obtain rfl : ts = [] := List.eq_nil_of_length_eq_zero hts
      exact ⟨[], [], by simp, by simpa using RunsAt.nil path _, by simp [Object.itemScalars],
        by simp [Object.erasedItems]⟩
  | succ n ih =>
      intro done ts more hts
      rw [Nat.mul_succ] at hts
      obtain ⟨fs, o, hfs, hrun, hscalars, herased⟩ :=
        h done.length (ts.take width) (ts.drop width ++ more) (by simp; omega)
      obtain ⟨fss, items, hfss, hruns, hitemScalars, herasedItems⟩ :=
        ih (done ++ [o]) (ts.drop width) more (by simp; omega)
      have hfirst : RunsAt path fs (.cells kind (done ++ List.replicate (n + 1) start))
          (.cells kind ((done ++ [o]) ++ List.replicate n start)) := by
        have hchild : (Object.cells kind (done ++ List.replicate (n + 1) start)).child
            (.index done.length) = some start := by
          simp [Object.child, List.replicate_succ]
        have := RunsAt.child rfl hrun hchild
        simpa [Object.setChild, List.replicate_succ] using this
      rw [List.length_append, List.length_singleton] at hfss
      refine ⟨fs :: fss, o :: items, ?_, ?_, ?_, ?_⟩
      · rw [Leaves.repeated_succ, Leaves.append_eq_take_drop width]
        simp [hfs, hfss]
      · rw [List.flatten_cons]
        simpa using hfirst.append hruns
      · rw [Object.itemScalars, hscalars, hitemScalars, ← List.map_append, List.take_append_drop]
      · rw [Object.erasedItems, herased, herasedItems, List.replicate_succ]

theorem array {path : AccessPath} {layout : Nat → Leaves (List Fill)} {width : Nat}
    {start goal : Object} (kind : CellKind) (count : Nat)
    (h : ∀ i, Fills (path.index i) (layout i) width start goal) :
    Fills path (do return (← Leaves.repeated layout 0 count).flatten) (width * count)
      (.cells kind (List.replicate count start)) (.cells kind (List.replicate count goal)) := by
  intro ts more hts
  obtain ⟨fss, items, hfss, hrun, hscalars, herased⟩ := elements kind h count [] ts more hts
  rw [List.length_nil] at hfss
  refine ⟨fss.flatten, .cells kind items, ?_, by simpa using hrun, ?_, ?_⟩
  · simp [hfss]
  · rw [Object.scalars, hscalars]
  · rw [Object.erased, herased]

theorem container {path : AccessPath} {layout : Leaves (List Fill)} {width size : Nat}
    {elem : TargetType} {goal : Object}
    (h : Fills path layout width (.cells (.container elem) (List.replicate size elem.fresh)) goal) :
    Fills path (do return .resize path size :: (← layout)) width (.cells (.container elem) [])
      goal := by
  intro ts more hts
  obtain ⟨fs, o, hfs, hrun, hscalars, herased⟩ := h ts more hts
  have hresize : RunsAt path [.resize path size] (.cells (.container elem) [])
      (.cells (.container elem) (List.replicate size elem.fresh)) :=
    RunsAt.single rfl (by simp [Fill.effect, Object.enlarged])
  exact ⟨.resize path size :: fs, o, by simp [hfs], hresize.append hrun, hscalars, herased⟩

theorem itemScalars_written (ts : List String) :
    Object.itemScalars (ts.map fun arg => .scalar (some arg)) = ts.map some := by
  induction ts with
  | nil => rfl
  | cons text rest ih => simp [Object.itemScalars, Object.scalars, ih]

theorem erasedItems_written (ts : List String) :
    Object.erasedItems (ts.map fun arg => .scalar (some arg)) =
      TargetType.unwritten ts.length := by
  induction ts with
  | nil => rfl
  | cons text rest ih =>
      simp only [List.map_cons, Object.erasedItems, Object.erased, ih, TargetType.unwritten,
        List.length_cons, List.replicate_succ]

theorem construct (path : AccessPath) (spelling : String) (ty : Ty) :
    Fills path (do
      let args ← Leaves.flat ty
      return [.construct path spelling args]) ty.leafCount
      (.cells (.native spelling) (TargetType.unwritten ty.leafCount))
      (.cells (.native spelling) (TargetType.unwritten ty.leafCount)) := by
  intro ts more hts
  refine ⟨[.construct path spelling ts],
    .cells (.native spelling) (ts.map fun arg => .scalar (some arg)), ?_, ?_, ?_, ?_⟩
  · simp [Leaves.run_flat hts]
  · refine RunsAt.single rfl ?_
    simp [Fill.effect, TargetType.unwritten, hts, Object.isUnwritten]
  · rw [Object.scalars, itemScalars_written]
  · rw [Object.erased, erasedItems_written, hts]

end Fills

namespace Target

def elementFills (t : Target) (elem : Ty) (size : Nat) (path : AccessPath) (child : Position) :
    Leaves (List Fill) := do
  return (← Leaves.repeated (fun i => t.fills elem (path.index i) child) 0 size).flatten

theorem elementFills_of_isVacant (t : Target) {elem : Ty} (h : elem.isVacant) (size : Nat)
    (path : AccessPath) (child : Position) : t.elementFills elem size path child = pure [] := by
  have nothing : (fun i => t.fills elem (path.index i) child) = fun _ => pure [] := by
    funext i
    exact t.fills_of_isVacant elem h _ _
  have repeated (start : Nat) :
      Leaves.repeated (fun _ => (pure [] : Leaves (List Fill))) start size =
        pure (List.replicate size []) := by
    induction size generalizing start with
    | zero => simp
    | succ n ih => simp [Leaves.repeated_succ, ih, List.replicate_succ]
  rw [elementFills, nothing, repeated]
  simp

/-- Leaving out elements in which nothing is left makes no difference. -/
theorem fills_array (t : Target) (elem : Ty) (size : Nat) (path : AccessPath)
    (position : Position) :
    t.fills (.array elem size) path position =
      match t.arrayForm elem size position.inContainer with
      | .container _ => do
        return .resize path size :: (← t.elementFills elem size path ⟨false, true⟩)
      | .native spelling (.vector _) =>
        if path.isRoot || position.inMatrix then
          t.elementFills elem size path ⟨false, position.inContainer⟩
        else do
          let args ← Leaves.flat (.array elem size)
          return [.construct path spelling args]
      | .native _ (.matrix _) => t.elementFills elem size path ⟨true, position.inContainer⟩
      | .raw .. => t.elementFills elem size path ⟨false, position.inContainer⟩ := by
  rw [fills]
  have same (child : Position) :
      (if elem.isVacant then pure [] else do
        return (← Leaves.repeated (fun i => t.fills elem (path.index i) child) 0 size).flatten :
          Leaves (List Fill)) = t.elementFills elem size path child := by
    by_cases hvacant : elem.isVacant
    · rw [if_pos hvacant, elementFills_of_isVacant t hvacant]
    · rw [if_neg hvacant]
      rfl
  cases t.arrayForm elem size position.inContainer with
  | native spelling shape =>
      cases shape with
      | vector width => simp only [same]
      | matrix columns => exact same _
  | raw element size => exact same _
  | container element => simp only [same]

end Target

theorem Fills.scalarElements (t : Target) (path : AccessPath) (s : Scalar) (child : Position)
    (kind : CellKind) (size : Nat) :
    Fills path (t.elementFills (.scalar s) size path child) (Ty.array (.scalar s) size).leafCount
      (.cells kind (TargetType.unwritten size)) (.cells kind (TargetType.unwritten size)) := by
  refine Fills.array kind size fun i => ?_
  simp only [Target.fills]
  exact Fills.assign (path.index i)

namespace Ty

mutual
def DistinctMembers : Ty → Prop
  | .array elem _ => elem.DistinctMembers
  | .struct _ members => (members.map Prod.fst).Nodup ∧ AllDistinct members
  | _ => True

def AllDistinct : List (String × Ty) → Prop
  | [] => True
  | (_, ty) :: rest => ty.DistinctMembers ∧ AllDistinct rest
end

end Ty

namespace Object

theorem lookupField_append {name : String} {o : Object} {done rest : List (String × Object)}
    (hdone : ∀ field ∈ done, field.1 ≠ name) :
    lookupField name (done ++ (name, o) :: rest) = some o := by
  induction done with
  | nil => simp [lookupField]
  | cons field others ih =>
      obtain ⟨other, old⟩ := field
      rw [List.cons_append, lookupField, if_neg (hdone _ List.mem_cons_self)]
      exact ih fun field hfield => hdone field (List.mem_cons_of_mem _ hfield)

theorem setField_append {name : String} {o new : Object} {done rest : List (String × Object)}
    (hdone : ∀ field ∈ done, field.1 ≠ name) :
    setField name new (done ++ (name, o) :: rest) = done ++ (name, new) :: rest := by
  induction done with
  | nil => simp [setField]
  | cons field others ih =>
      obtain ⟨other, old⟩ := field
      rw [List.cons_append, setField, if_neg (hdone _ List.mem_cons_self),
        ih fun field hfield => hdone field (List.mem_cons_of_mem _ hfield)]
      rfl

end Object

namespace Fills

/-- The next member of a struct is filled in, with `done` before it and `rest` after it. -/
theorem member {path : AccessPath} {name : String} {fs : List Fill} {start o : Object}
    {done : List (String × Object)} (hdone : ∀ field ∈ done, field.1 ≠ name)
    (h : RunsAt (path.member name) fs start o) (rest : List (String × Object)) :
    RunsAt path fs (.struct (done ++ (name, start) :: rest))
      (.struct (done ++ (name, o) :: rest)) := by
  have hchild : (Object.struct (done ++ (name, start) :: rest)).child (.member name) = some start :=
    Object.lookupField_append hdone
  have hrun := RunsAt.child rfl h hchild
  rwa [Object.setChild, Object.setField_append hdone] at hrun

end Fills

namespace Target

mutual
/-- At a place outside a matrix, the statements fill in an object of the type spelled there. -/
theorem fills_filled (t : Target) : (ty : Ty) → ty.DistinctMembers → ∀ path position,
    position.inMatrix = false →
    Fills path (t.fills ty path position) ty.leafCount
      (t.lowered ty position.inContainer).fresh (t.sized ty position.inContainer)
  | .void, _, path, position, _ | .scalar _, _, path, position, _
  | .string, _, path, position, _ => by
      simp only [fills, lowered, TargetType.fresh, sized, Ty.leafCount]
      exact Fills.assign path
  | .array elem size, hty, path, position, hposition => by
      rw [Ty.DistinctMembers] at hty
      rw [fills_array, lowered, sized]
      obtain ⟨spelling, s, hform, rfl⟩ | ⟨spelling, hform, rfl, horder⟩ |
        ⟨element, s, hform, rfl⟩ | hform := t.arrayForm_cases elem size position.inContainer
      · simp only [hform, lowered, TargetType.fresh]
        by_cases hroot : path.isRoot
        · rw [hroot, Bool.true_or, if_pos rfl]
          exact Fills.scalarElements t path s _ _ size
        · rw [hposition, Bool.or_false, if_neg hroot]
          simpa [Ty.leafCount] using Fills.construct path spelling (.array (.scalar s) size)
      · simp only [hform, lowered, TargetType.fresh]
        refine Fills.array .fixed size fun i => ?_
        rw [fills_array, t.arrayForm_row horder]
        simp only [Bool.or_true, if_true]
        exact Fills.scalarElements t (path.index i) .float _ _ size
      · simp only [hform, lowered, TargetType.fresh]
        exact Fills.scalarElements t path s _ _ size
      · simp only [hform, TargetType.fresh]
        refine Fills.container (Fills.array _ size fun i => ?_)
        exact fills_filled t elem hty (path.index i) ⟨false, true⟩ rfl
  | .struct name members, hty, path, position, _ => by
      rw [Ty.DistinctMembers] at hty
      simp only [fills, lowered, TargetType.fresh, sized, Ty.leafCount]
      intro ts more hts
      obtain ⟨fs, fields, hfs, hrun, hscalars, herased⟩ :=
        fillsMembers_filled t members hty.1 hty.2 path [] (by simp) ts more hts
      exact ⟨fs, .struct fields, hfs, hrun, hscalars, by rw [Object.erased, herased]⟩

theorem fillsMembers_filled (t : Target) : (members : List (String × Ty)) →
    (members.map Prod.fst).Nodup → Ty.AllDistinct members → ∀ path (done : List (String × Object)),
    (∀ field ∈ done, ∀ member ∈ members, field.1 ≠ member.1) →
    ∀ ts more, ts.length = Ty.leafCountMembers members → ∃ fs fields,
      (t.fillsMembers members path).run (ts ++ more) = some (fs, more) ∧
      RunsAt path fs (.struct (done ++ TargetType.freshFields (t.loweredMembers members)))
        (.struct (done ++ fields)) ∧
      Object.fieldScalars fields = ts.map some ∧
      Object.erasedFields fields = t.sizedFields members
  | [], _, _, path, done, _, ts, more, hts => by
      obtain rfl : ts = [] := List.eq_nil_of_length_eq_zero hts
      exact ⟨[], [], by rw [fillsMembers]; rfl, RunsAt.nil path _, rfl, rfl⟩
  | (name, ty) :: rest, hnodup, hdistinct, path, done, hdone, ts, more, hts => by
      rw [Ty.leafCountMembers] at hts
      rw [List.map_cons, List.nodup_cons] at hnodup
      obtain ⟨fs, o, hfs, hrun, hscalars, herased⟩ := fills_filled t ty hdistinct.1
        (path.member name) ⟨false, false⟩ rfl (ts.take ty.leafCount)
        (ts.drop ty.leafCount ++ more) (by simp; omega)
      have hdone' : ∀ field ∈ done ++ [(name, o)], ∀ member ∈ rest, field.1 ≠ member.1 := by
        intro field hfield member hmember
        rcases List.mem_append.mp hfield with hfield | hfield
        · exact hdone field hfield member (List.mem_cons_of_mem _ hmember)
        · rw [List.mem_singleton.mp hfield]
          intro heq
          exact hnodup.1 (List.mem_map.mpr ⟨member, hmember, heq.symm⟩)
      obtain ⟨gs, fields, hgs, hruns, hfieldScalars, herasedFields⟩ := fillsMembers_filled t rest
        hnodup.2 hdistinct.2 path (done ++ [(name, o)]) hdone' (ts.drop ty.leafCount) more
        (by simp; omega)
      refine ⟨fs ++ gs, (name, o) :: fields, ?_, ?_, ?_, ?_⟩
      · rw [fillsMembers, Leaves.append_eq_take_drop ty.leafCount]
        simp [hfs, hgs]
      · rw [loweredMembers, TargetType.freshFields]
        have hfirst := Fills.member (fun field hfield => hdone field hfield _ List.mem_cons_self)
          hrun (TargetType.freshFields (t.loweredMembers rest))
        rw [List.append_assoc, List.append_assoc] at hruns
        exact hfirst.append hruns
      · rw [Object.fieldScalars, hscalars, hfieldScalars, ← List.map_append,
          List.take_append_drop]
      · rw [Object.erasedFields, herased, herasedFields, sizedFields]
end

end Target
end ColorLowering
