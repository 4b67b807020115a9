/-!
# Trees from references

The entries of a store refer to each other in any order. An entry whose references all lead to an
end has a tree, found by sweeping over the entries until no tree is added. What is left refers to
itself in the end, or to no entry at all; it is unfolded to as many levels as there are entries
left, and cut there. A path that meets a cut has met some entry twice or has left the store, so a
walk that visits only what is there and comes to an end never sees one.
-/
namespace ColorLowering

structure Unfolding (α : Type) where
  count : Nat
  /-- The tree of an entry, from those of the entries that it refers to. -/
  build : (Nat → Option α) → Nat → Option α
  /-- What stands for an entry where it is cut off. -/
  cut : Nat → α

namespace Unfolding

variable {α : Type} (u : Unfolding α)

def finish (known : Array (Option α)) (i : Nat) : Array (Option α) :=
  match known.getD i none with
  | some _ => known
  | none => known.setIfInBounds i (u.build (fun j => known.getD j none) i)

/-- Once up and once down, so that references in either direction settle at once. -/
def sweep (known : Array (Option α)) : Array (Option α) :=
  (List.range u.count ++ (List.range u.count).reverse).foldl u.finish known

def pending (known : Array (Option α)) : Nat := known.countP Option.isNone

def settle : (rounds : Nat) → Array (Option α) → Array (Option α)
  | 0, known => known
  | rounds + 1, known =>
    let next := u.sweep known
    if pending next = 0 ∨ pending next = pending known then next else settle rounds next

def level (known : Array (Option α)) : (depth : Nat) → Array α
  | 0 => (Array.range u.count).map fun i => (known.getD i none).getD (u.cut i)
  | depth + 1 =>
    let below := level known depth
    let part (j : Nat) : Option α := some (below.getD j (u.cut j))
    (Array.range u.count).map fun i =>
      (known.getD i none).getD ((u.build part i).getD (u.cut i))

def trees : Array α :=
  let known := u.settle u.count (Array.replicate u.count none)
  u.level known (pending known)

end Unfolding
end ColorLowering
