import ColorLowering.Proofs.Store.Interned
import ColorLowering.Store.Types

/-!
# Types that refer to older types

Where each array and each struct refers only to types older than itself, no chain of references goes
on forever, so whatever follows them comes to an end. One pass over the types in their order then
finds the tree of every type, and it is made of the trees of its parts.
-/
namespace ColorLowering

def TypeNode.parts : TypeNode → List TypeId
  | .array elem _ => [elem]
  | .struct _ members => members.map Prod.snd
  | _ => []

namespace TypeStore

def PartOf (p : TypeStore) (part whole : TypeId) : Prop :=
  ∃ node, p.node? whole = some node ∧ part ∈ node.parts

/-- Every type is newer than its parts. -/
def Layered (p : TypeStore) : Prop := ∀ part whole, p.PartOf part whole → part.index < whole.index

theorem Layered.wellFounded {p : TypeStore} (h : p.Layered) : WellFounded p.PartOf :=
  Subrelation.wf (h _ _) (InvImage.wf TypeId.index Nat.lt_wfRel.wf)

theorem layered_empty : empty.Layered := by
  rintro part whole ⟨node, hnode, hpart⟩
  have flat : ∀ node ∈ primitives, node.parts = [] := by decide
  rw [node?, empty, (Interned.holds_ofList primitives).getElem?_items] at hnode
  rw [flat node (List.mem_eraseDups.mp (List.mem_of_getElem? hnode))] at hpart
  cases hpart

theorem Layered.intern {p : TypeStore} {node : TypeNode} (h : p.Layered)
    (hnode : ∀ part ∈ node.parts, part.index < p.size) : (p.intern node).2.Layered := by
  rintro part whole ⟨other, hother, hpart⟩
  obtain hold | ⟨hwhole, rfl⟩ := Interned.getElem?_intern_cases hother
  · exact h part whole ⟨other, hold, hpart⟩
  · rw [hwhole]
    exact hnode part hpart

section
variable {names : NameStore} {known known' : Array (Option Ty)} {node : TypeNode}

def memberTree (names : NameStore) (known : Array (Option Ty)) (m : NameId × TypeId) :
    Option (String × Ty) := do
  return (names.lookup m.1, ← known.getD m.2.index none)

theorem treeOf_struct (name : NameId) (members : List (NameId × TypeId)) :
    treeOf names known (.struct name members) =
      (members.mapM (memberTree names known)).bind fun members =>
        some (.struct (names.lookup name) members) :=
  rfl

/-- A tree depends on nothing but the trees of the parts. -/
theorem treeOf_congr
    (h : ∀ part ∈ node.parts, known.getD part.index none = known'.getD part.index none) :
    treeOf names known node = treeOf names known' node := by
  cases node with
  | array elem size => rw [treeOf, treeOf, h elem List.mem_cons_self]
  | struct name members =>
      have same : members.mapM (memberTree names known) =
          members.mapM (memberTree names known') := by
        induction members with
        | nil => rfl
        | cons first rest ih =>
            obtain ⟨hfirst, hrest⟩ := List.forall_mem_cons.mp h
            rw [List.mapM_cons, List.mapM_cons, ih hrest, memberTree, memberTree, hfirst]
      rw [treeOf_struct, treeOf_struct, same]
  | _ => rfl

theorem exists_treeOf (h : ∀ part ∈ node.parts, ∃ ty, known.getD part.index none = some ty) :
    ∃ ty, treeOf names known node = some ty := by
  cases node with
  | array elem size =>
      obtain ⟨ty, hty⟩ := h elem List.mem_cons_self
      exact ⟨.array ty size, by rw [treeOf, hty]; rfl⟩
  | struct name members =>
      have found : ∃ tys, members.mapM (memberTree names known) = some tys := by
        induction members with
        | nil => exact ⟨[], rfl⟩
        | cons first rest ih =>
            obtain ⟨⟨ty, hty⟩, hrest⟩ := List.forall_mem_cons.mp h
            obtain ⟨tys, htys⟩ := ih hrest
            refine ⟨(names.lookup first.1, ty) :: tys, ?_⟩
            rw [List.mapM_cons, htys, memberTree, hty]
            rfl
      obtain ⟨tys, htys⟩ := found
      exact ⟨.struct (names.lookup name) tys, by rw [treeOf_struct, htys]; rfl⟩
  | _ => exact ⟨_, rfl⟩

def treesOf (names : NameStore) (nodes : List TypeNode) : Array (Option Ty) :=
  nodes.foldl (fun known node => known.push (treeOf names known node)) #[]

theorem treesOf_concat (nodes : List TypeNode) (node : TypeNode) :
    treesOf names (nodes ++ [node]) =
      (treesOf names nodes).push (treeOf names (treesOf names nodes) node) := by
  simp [treesOf]

theorem size_treesOf (names : NameStore) (nodes : List TypeNode) :
    (treesOf names nodes).size = nodes.length := by
  induction nodes using List.reverseRecOn with
  | nil => rfl
  | append_singleton nodes node ih => simp [treesOf_concat, ih]

theorem trees_eq (p : TypeStore) (names : NameStore) :
    p.trees names = treesOf names p.nodes.items.toList := by
  rw [trees, treesOf, Array.foldl_toList]

theorem getD_treesOf_append {i : Nat} {nodes : List TypeNode} (hi : i < nodes.length)
    (more : List TypeNode) :
    (treesOf names (nodes ++ more)).getD i none = (treesOf names nodes).getD i none := by
  induction more using List.reverseRecOn with
  | nil => rw [List.append_nil]
  | append_singleton more node ih =>
      have inside : i < (treesOf names (nodes ++ more)).size := by
        rw [size_treesOf, List.length_append]
        exact Nat.lt_add_right _ hi
      rw [← List.append_assoc, treesOf_concat, Array.getD_eq_getD_getElem?,
        Array.getElem?_push_lt inside, ← ih, Array.getD_eq_getD_getElem?,
        Array.getElem?_eq_getElem inside]

theorem getD_treesOf_concat (nodes : List TypeNode) (node : TypeNode) :
    (treesOf names (nodes ++ [node])).getD nodes.length none =
      treeOf names (treesOf names nodes) node := by
  rw [treesOf_concat, Array.getD_eq_getD_getElem?, ← size_treesOf names, Array.getElem?_push_size,
    Option.getD_some]

/-- Where the parts are older, the tree that is made of theirs is the same in the end. -/
theorem getD_treesOf (names : NameStore) (older newer : List TypeNode) (node : TypeNode)
    (hparts : ∀ part ∈ node.parts, part.index < older.length) :
    (treesOf names (older ++ node :: newer)).getD older.length none =
      treeOf names (treesOf names (older ++ node :: newer)) node :=
  calc
    _ = (treesOf names (older ++ [node])).getD older.length none := by
        rw [List.append_cons]
        exact getD_treesOf_append (by simp) newer
    _ = treeOf names (treesOf names older) node := getD_treesOf_concat older node
    _ = _ := treeOf_congr fun part hpart => (getD_treesOf_append (hparts part hpart) _).symm

theorem exists_treesOf {nodes : List TypeNode}
    (h : ∀ (i : Nat) (node : TypeNode), nodes[i]? = some node →
      ∀ part ∈ node.parts, part.index < i) (i : Nat) (hnode : nodes[i]? = some node) :
    ∃ ty, (treesOf names nodes).getD i none = some ty ∧
      treeOf names (treesOf names nodes) node = some ty := by
  induction i using Nat.strongRecOn generalizing node with
  | ind i ih =>
      obtain ⟨hi, rfl⟩ := List.getElem?_eq_some_iff.mp hnode
      have hparts := h i nodes[i] hnode
      have found : ∀ part ∈ nodes[i].parts,
          ∃ ty, (treesOf names nodes).getD part.index none = some ty := by
        intro part hpart
        have inside := Nat.lt_trans (hparts part hpart) hi
        obtain ⟨ty, hty, -⟩ := ih part.index (hparts part hpart) (List.getElem?_eq_getElem inside)
        exact ⟨ty, hty⟩
      obtain ⟨ty, hty⟩ := exists_treeOf found
      have length : (nodes.take i).length = i := List.length_take_of_le (Nat.le_of_lt hi)
      have made := getD_treesOf names (nodes.take i) (nodes.drop (i + 1)) nodes[i] (by rwa [length])
      rw [length, ← List.drop_eq_getElem_cons hi, List.take_append_drop] at made
      exact ⟨ty, made.trans hty, hty⟩

/-- The tree of a type is made of the trees of its parts. -/
theorem Layered.exists_tree {p : TypeStore} (h : p.Layered) (names : NameStore) {id : TypeId}
    (hnode : p.node? id = some node) : ∃ ty, p.ty? names id = some ty ∧
      treeOf names (p.trees names) node = some ty := by
  rw [ty?, trees_eq]
  refine exists_treesOf (fun i other hother part hpart => ?_) _ (Array.getElem?_toList.trans hnode)
  exact h part ⟨i⟩ ⟨other, Array.getElem?_toList.symm.trans hother, hpart⟩

end

end TypeStore
end ColorLowering
