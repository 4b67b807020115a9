import ColorLowering.Proofs.Store.History
import ColorLowering.Proofs.Store.Types

/-!
# Interning

Equal texts and equal types get the same identity and different ones different identities, numbered
in the order of first occurrence, and an identity stands for the same datum for good. Types that are
built from types of the store refer only to older ones, so each of them has a tree.
-/
namespace ColorLowering.Store

variable {ops : List Operation} {i j : Nat} {op : Operation} {id id' : Identity}

/-! ### Identities -/

section
variable {α : Type} {start : List α} {f : Operation → Option α} {a : α}

theorem mem_entered (h : ops[i]? = some op) (ha : f op = some a) : a ∈ entered start f ops :=
  List.mem_append_right _ (List.mem_filterMap.mpr ⟨op, List.mem_of_getElem? h, ha⟩)

/-- Where a datum stands when it is entered is where it stands in the end. -/
theorem idxOf_entered [DecidableEq α] (h : ops[i]? = some op) (ha : f op = some a) :
    (entered start f (ops.take i) ++ [a]).eraseDups.idxOf a =
      (entered start f ops).eraseDups.idxOf a := by
  have split : entered start f ops =
      entered start f (ops.take i) ++ [a] ++ (ops.drop (i + 1)).filterMap f := by
    have here : ops.take (i + 1) = ops.take i ++ [op] := by
      rw [List.take_add_one, h, Option.toList_some]
    have now := entered_concat start f (ops.take i) op
    rw [ha, Option.toList_some] at now
    rw [← now, ← here, entered, entered, List.append_assoc, ← List.filterMap_append,
      List.take_append_drop]
  rw [split, idxOf_eraseDups_append List.mem_concat_self]

end

theorem Answered.name_eq {text : String} (h : Answered ops i (.name text) id) :
    id = .name ⟨(texts ops).eraseDups.idxOf text⟩ := by
  have place := (holds_texts (ops.take i)).fst_intern text
  rw [texts, idxOf_entered (f := Operation.text?) h.performed rfl] at place
  rw [← h.answer]
  exact congrArg (fun n => Identity.name ⟨n⟩) place

theorem Answered.type_eq {node : TypeNode} (h : Answered ops i op id) (hop : op.node? = some node) :
    id = .type ⟨(nodes ops).eraseDups.idxOf node⟩ := by
  have place := (holds_nodes (ops.take i)).fst_intern node
  rw [nodes, idxOf_entered h.performed hop] at place
  rw [← h.answer]
  cases op with
  | type | array | struct =>
      cases hop
      exact congrArg (fun n => Identity.type ⟨n⟩) place
  | _ => cases hop

/-! ### Older and newer types -/

def Operation.parts (op : Operation) : List TypeId := op.node?.elim [] TypeNode.parts

/-- Every type is built from types that are there when it is. -/
def BuildsOnTypes (ops : List Operation) : Prop :=
  ∀ i, (h : i < ops.length) → ∀ part ∈ ops[i].parts, part.index < (after (ops.take i)).types.size

instance (ops : List Operation) : Decidable (BuildsOnTypes ops) :=
  inferInstanceAs (Decidable (∀ i, (h : i < ops.length) → ∀ part ∈ ops[i].parts,
    part.index < (after (ops.take i)).types.size))

theorem BuildsOnTypes.of_concat (h : BuildsOnTypes (ops ++ [op])) :
    BuildsOnTypes ops ∧ ∀ part ∈ op.parts, part.index < (after ops).types.size := by
  constructor
  · intro i hi part hpart
    have earlier := h i (by simp; omega) part
    rw [List.getElem_append_left hi, List.take_append_of_le_length (Nat.le_of_lt hi)] at earlier
    exact earlier hpart
  · intro part hpart
    have last := h ops.length (by simp) part
    rw [List.getElem_concat_length rfl, List.take_left' rfl] at last
    exact last hpart

theorem layered_after (h : BuildsOnTypes ops) : (after ops).types.Layered := by
  induction ops using List.reverseRecOn with
  | nil => exact TypeStore.layered_empty
  | append_singleton ops op ih =>
      obtain ⟨hops, hop⟩ := h.of_concat
      rw [after_concat]
      cases op with
      | type | array | struct => exact (ih hops).intern hop
      | _ => exact ih hops

/-! ### The first identities -/

theorem idxOf_empty (ops : List Operation) : (texts ops).eraseDups.idxOf "" = 0 := by
  rw [texts, entered, idxOf_eraseDups_append List.mem_cons_self]
  rfl

theorem idxOf_primitive {node : TypeNode} (h : TypeStore.primitives[i]? = some node) :
    (nodes ops).eraseDups.idxOf node = i := by
  have places : ∀ i, (h : i < TypeStore.primitives.length) →
      TypeStore.primitives.eraseDups.idxOf TypeStore.primitives[i] = i := by decide
  obtain ⟨hi, rfl⟩ := List.getElem?_eq_some_iff.mp h
  rw [nodes, entered, idxOf_eraseDups_append (List.getElem_mem hi), places i hi]

theorem node?_primitive {node : TypeNode} (h : TypeStore.primitives[i]? = some node) :
    (after ops).types.node? ⟨i⟩ = some node := by
  have mem : node ∈ nodes ops := List.mem_append_left _ (List.mem_of_getElem? h)
  have found := List.getElem?_idxOf (List.mem_eraseDups.mpr mem)
  rw [idxOf_primitive h] at found
  exact ((holds_nodes ops).getElem?_items i).trans found

theorem lookup_of_length_le {id : NameId} (h : (texts ops).eraseDups.length ≤ id.index) :
    (after ops).names.lookup id = "" := by
  rw [NameStore.lookup, Array.getD_eq_getD_getElem?, (holds_texts ops).getElem?_items,
    List.getElem?_eq_none h, Option.getD_none]

/-- Which identities texts and types get, and what they stand for. -/
structure InternsStably (ops : List Operation) : Prop where
  name : ∀ i text id, Answered ops i (.name text) id →
    id = .name ⟨(texts ops).eraseDups.idxOf text⟩
  type : ∀ i op node id, Answered ops i op id → op.node? = some node →
    id = .type ⟨(nodes ops).eraseDups.idxOf node⟩
  sameName : ∀ i j a b id id', Answered ops i (.name a) id → Answered ops j (.name b) id' →
    (id = id' ↔ a = b)
  sameType : ∀ i j op op' a b id id', Answered ops i op id → Answered ops j op' id' →
    op.node? = some a → op'.node? = some b → (id = id' ↔ a = b)
  keptName : ∀ i text id, Answered ops i (.name text) (.name id) →
    ∀ j, i < j → (after (ops.take j)).names.lookup id = text
  keptType : ∀ i op node id, Answered ops i op (.type id) → op.node? = some node →
    ∀ j, i < j → (after (ops.take j)).types.node? id = some node
  noMoreNames : (after ops).names.size = (texts ops).eraseDups.length
  noMoreTypes : (after ops).types.size = (nodes ops).eraseDups.length
  unknown : ∀ id : NameId, (texts ops).eraseDups.length ≤ id.index →
    (after ops).names.lookup id = ""
  emptyName : (texts ops).eraseDups.idxOf "" = 0
  primitives : ∀ i node, TypeStore.primitives[i]? = some node →
    (nodes ops).eraseDups.idxOf node = i ∧ (after ops).types.node? ⟨i⟩ = some node
  admitted : ∀ text, (after ops).names.size < idCapacity →
    (after ops).names.tryIntern text = .ok ((after ops).names.intern text)
  older : BuildsOnTypes ops → (after ops).types.Layered
  ends : BuildsOnTypes ops → WellFounded (after ops).types.PartOf
  trees : BuildsOnTypes ops → ∀ id node, (after ops).types.node? id = some node →
    ∃ ty, (after ops).ty? id = some ty ∧ TypeStore.treeOf (after ops).names
      ((after ops).types.trees (after ops).names) node = some ty

/-- However the operations on a store are interleaved: texts and types are numbered in the order in
which they occur first, after the empty text and the primitive types; to be equal is to have the
same identity; an identity is looked up as what it was given out for, at every later time, and as
the empty text if it was not given out; and where every type is built from types that are there, no
chain of references goes on forever and every type has its tree, which is what leaves are counted
in, and what is spelled and laid out. -/
theorem interning_is_stable (ops : List Operation) : InternsStably ops where
  name i text id h := h.name_eq
  type i op node id h hop := h.type_eq hop
  sameName i j a b id id' h h' := by
    rw [h.name_eq, h'.name_eq, Identity.name.injEq, NameId.mk.injEq]
    exact List.idxOf_inj (List.mem_eraseDups.mpr (mem_entered h.performed rfl))
  sameType i j op op' a b id id' h h' hop hop' := by
    rw [h.type_eq hop, h'.type_eq hop', Identity.type.injEq, TypeId.mk.injEq]
    exact List.idxOf_inj (List.mem_eraseDups.mpr (mem_entered h.performed hop))
  keptName i text id h j hij := by
    cases h.readsBack hij with
    | name hread => exact hread.2
  keptType i op node id h hop j hij := by
    cases h.readsBack hij with
    | type hop' hread =>
        obtain rfl := Option.some.inj (hop.symm.trans hop')
        exact hread
  noMoreNames := (holds_texts ops).size_eq
  noMoreTypes := (holds_nodes ops).size_eq
  unknown id h := lookup_of_length_le h
  emptyName := idxOf_empty ops
  primitives i node h := ⟨idxOf_primitive h, node?_primitive h⟩
  admitted text h := if_neg fun hfull => Nat.not_le_of_lt h hfull.2
  older := layered_after
  ends h := (layered_after h).wellFounded
  trees h id node hnode := (layered_after h).exists_tree (after ops).names hnode

def nestedTypes : List Operation :=
  [.name "rows", .array ⟨5⟩ 3, .array ⟨7⟩ 3, .name "Matrix", .struct ⟨2⟩ [(⟨1⟩, ⟨8⟩)]]

theorem nested_types_have_trees : BuildsOnTypes nestedTypes ∧
    (after nestedTypes).types.Layered ∧ WellFounded (after nestedTypes).types.PartOf ∧
    ∃ ty, (after nestedTypes).ty? ⟨9⟩ = some ty := by
  have builds : BuildsOnTypes nestedTypes := by decide
  have stable := interning_is_stable nestedTypes
  obtain ⟨ty, hty, -⟩ := stable.trees builds ⟨9⟩ (.struct ⟨2⟩ [(⟨1⟩, ⟨8⟩)]) rfl
  exact ⟨builds, stable.older builds, stable.ends builds, ty, hty⟩

end ColorLowering.Store
