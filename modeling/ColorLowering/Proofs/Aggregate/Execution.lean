import ColorLowering.Proofs.Aggregate.Object

/-!
# Running the statements that fill an object in

What statements do to the part of an object at their path can be said of that part alone: a run at a
part is a run of the whole object, runs at one part compose, and a run at a child is one at its
parent.
-/
namespace ColorLowering

namespace Object

def get (o : Object) : List PathStep → Option Object
  | [] => some o
  | step :: rest => (o.child step).bind fun c => c.get rest

/-- The object with `new` in place of the part that the steps lead to. -/
def put (o : Object) : List PathStep → Object → Object
  | [], new => new
  | step :: rest, new =>
    match o.child step with
    | some c => o.setChild step (c.put rest new)
    | none => o

theorem put_cons {o c : Object} {step : PathStep} (hc : o.child step = some c)
    (rest : List PathStep) (new : Object) :
    o.put (step :: rest) new = o.setChild step (c.put rest new) := by
  rw [put, hc]

theorem put_get {o part : Object} {steps : List PathStep} (h : o.get steps = some part) :
    o.put steps part = o := by
  induction steps generalizing o with
  | nil => exact (Option.some.inj h).symm
  | cons step rest ih =>
      obtain ⟨c, hc, hpart⟩ := Option.bind_eq_some_iff.mp h
      rw [put_cons hc, ih hpart, setChild_child hc]

theorem get_put {o part : Object} {steps : List PathStep} (h : o.get steps = some part)
    (new : Object) : (o.put steps new).get steps = some new := by
  induction steps generalizing o with
  | nil => rfl
  | cons step rest ih =>
      obtain ⟨c, hc, hpart⟩ := Option.bind_eq_some_iff.mp h
      rw [put_cons hc, get, child_setChild hc, Option.bind_some, ih hpart]

theorem put_put {o part : Object} {steps : List PathStep} (h : o.get steps = some part)
    (first second : Object) : (o.put steps first).put steps second = o.put steps second := by
  induction steps generalizing o with
  | nil => rfl
  | cons step rest ih =>
      obtain ⟨c, hc, hpart⟩ := Option.bind_eq_some_iff.mp h
      rw [put_cons hc, put_cons hc, put_cons (child_setChild hc _), setChild_setChild, ih hpart]

theorem get_append (o : Object) (steps more : List PathStep) :
    o.get (steps ++ more) = (o.get steps).bind fun part => part.get more := by
  induction steps generalizing o with
  | nil => rfl
  | cons step rest ih =>
      rw [List.cons_append, get, get, Option.bind_assoc]
      congr 1
      funext c
      exact ih c

theorem put_append {o part : Object} {steps : List PathStep} (h : o.get steps = some part)
    (more : List PathStep) (new : Object) :
    o.put (steps ++ more) new = o.put steps (part.put more new) := by
  induction steps generalizing o with
  | nil =>
      cases h
      rfl
  | cons step rest ih =>
      obtain ⟨c, hc, hpart⟩ := Option.bind_eq_some_iff.mp h
      rw [List.cons_append, put_cons hc, put_cons hc, ih hpart]

def isUnwritten : Object → Bool
  | .scalar none => true
  | _ => false

def enlarged (elem : TargetType) (items : List Object) (size : Nat) : List Object :=
  items ++ List.replicate (size - items.length) elem.fresh

end Object

def Fill.part : Fill → AccessPath
  | .resize part _ => part
  | .assign part _ => part
  | .construct part _ _ => part

/-- What the statement makes of the part at its path, if it runs there at all. -/
def Fill.effect : Fill → Object → Option Object
  | .resize _ size, .cells (.container elem) items =>
    if items.length ≤ size then some (.cells (.container elem) (Object.enlarged elem items size))
    else none
  | .assign _ value, .scalar none => some (.scalar (some value))
  | .construct _ spelling args, .cells (.native expected) items =>
    if spelling = expected ∧ items.length = args.length ∧ items.all Object.isUnwritten then
      some (.cells (.native expected) (args.map fun arg => .scalar (some arg)))
    else none
  | _, _ => none

namespace Object

def exec (name : String) (o : Object) (f : Fill) : Option Object := do
  if f.part.root = name then
    let part ← o.get f.part.steps
    let new ← f.effect part
    return o.put f.part.steps new
  else none

def run (name : String) (o : Object) : List Fill → Option Object
  | [] => some o
  | f :: rest => (o.exec name f).bind fun next => next.run name rest

theorem run_append (name : String) (o : Object) (fs gs : List Fill) :
    o.run name (fs ++ gs) = (o.run name fs).bind fun next => next.run name gs := by
  induction fs generalizing o with
  | nil => rfl
  | cons f rest ih =>
      rw [List.cons_append, run, run, Option.bind_assoc]
      congr 1
      funext next
      exact ih next

end Object

/-- Wherever the path leads to `o`, the statements run and leave `o'` there. -/
def RunsAt (path : AccessPath) (fs : List Fill) (o o' : Object) : Prop :=
  ∀ whole : Object, whole.get path.steps = some o →
    whole.run path.root fs = some (whole.put path.steps o')

namespace RunsAt

theorem nil (path : AccessPath) (o : Object) : RunsAt path [] o o := by
  intro whole h
  rw [Object.put_get h]
  rfl

theorem append {path : AccessPath} {fs gs : List Fill} {o o' o'' : Object}
    (hfs : RunsAt path fs o o') (hgs : RunsAt path gs o' o'') : RunsAt path (fs ++ gs) o o'' := by
  intro whole h
  rw [Object.run_append, hfs whole h, Option.bind_some, hgs _ (Object.get_put h o'),
    Object.put_put h]

theorem single {path : AccessPath} {f : Fill} {o o' : Object} (hpart : f.part = path)
    (h : f.effect o = some o') : RunsAt path [f] o o' := by
  subst hpart
  intro whole hget
  simp [Object.run, Object.exec, hget, h]

theorem child {path next : AccessPath} {step : PathStep} {fs : List Fill} {o c c' : Object}
    (hnext : next = ⟨path.root, path.steps ++ [step]⟩) (h : RunsAt next fs c c')
    (hc : o.child step = some c) : RunsAt path fs o (o.setChild step c') := by
  subst hnext
  intro whole hget
  have hchild : whole.get (path.steps ++ [step]) = some c := by
    rw [Object.get_append, hget]
    simp [Object.get, hc]
  rw [h whole hchild, Object.put_append hget]
  simp [Object.put, hc]

end RunsAt
end ColorLowering
