import ColorLowering.Store.Names
import ColorLowering.Ty.Basic

/-!
# Interned types

Structurally equal types share one identity. The primitive types come first; an array or struct
refers to the identities of its parts, which are older than its own when it was built from types of
the pool, so one pass from the oldest type to the newest gives every type as a tree.
-/
namespace ColorLowering

structure TypeId where
  index : Nat
  deriving DecidableEq

inductive TypeNode where
  | void
  | scalar (s : Scalar)
  | string
  | array (elem : TypeId) (size : Nat)
  | struct (name : NameId) (members : List (NameId × TypeId))
  deriving DecidableEq

structure TypeStore where
  nodes : Interned TypeNode

namespace TypeStore

def primitives : List TypeNode :=
  [.void, .scalar .bool, .scalar .int, .scalar .uint, .scalar .half, .scalar .float, .string]

def empty : TypeStore := ⟨.ofList primitives⟩

def size (p : TypeStore) : Nat := p.nodes.items.size

def intern (p : TypeStore) (node : TypeNode) : TypeId × TypeStore :=
  let (i, nodes) := p.nodes.intern node
  (⟨i⟩, ⟨nodes⟩)

def array (p : TypeStore) (elem : TypeId) (size : Nat) : TypeId × TypeStore :=
  p.intern (.array elem size)

def struct (p : TypeStore) (name : NameId) (members : List (NameId × TypeId)) :
    TypeId × TypeStore :=
  p.intern (.struct name members)

def node? (p : TypeStore) (id : TypeId) : Option TypeNode := p.nodes.items[id.index]?

/-- The tree of a node, from the trees of the nodes before it. -/
def treeOf (names : NameStore) (known : Array (Option Ty)) : TypeNode → Option Ty
  | .void => some .void
  | .scalar s => some (.scalar s)
  | .string => some .string
  | .array elem size => do
    let elem ← known.getD elem.index none
    return .array elem size
  | .struct name members => do
    let members ← members.mapM fun (member, ty) => do
      return (names.lookup member, ← known.getD ty.index none)
    return .struct (names.lookup name) members

def trees (p : TypeStore) (names : NameStore) : Array (Option Ty) :=
  p.nodes.items.foldl (fun known node => known.push (treeOf names known node)) #[]

def ty? (p : TypeStore) (names : NameStore) (id : TypeId) : Option Ty :=
  (p.trees names).getD id.index none

end TypeStore

def TypeId.isPrimitive (id : TypeId) : Bool := id.index < TypeStore.primitives.length

def TypeNode.isScalar : TypeNode → Bool
  | .scalar _ => true
  | _ => false

end ColorLowering
