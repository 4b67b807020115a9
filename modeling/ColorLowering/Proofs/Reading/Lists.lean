import ColorLowering.Proofs.Aggregate.Mirror
import ColorLowering.Proofs.Reading.Types

/-!
# Lists of values

Within a list in braces a list without a type is an item, as an operand is. So the list of an
aggregate reads as a tree that mirrors its type over the trees of its leaves, and the type before
the list is its head.
-/
namespace ColorLowering

open Cpp

def Ty.isComposite : Ty → Bool
  | .array .. => true
  | .struct .. => true
  | _ => false

def Cpp.Tree.headed : Tree → Tree → Tree
  | .list _ items, head => .list (some head) items
  | t, _ => t

mutual
/-- The tree of the first value of an object, over the trees of its leaves. -/
def Target.listTree (t : Target) : Ty → List Tree → Tree
  | .array elem size, trees =>
    match t.arrayForm elem size true with
    | .native spelling _ => .apply (.ofName spelling) trees
    | _ => .list none ((List.range size).map fun i =>
        t.listTree elem ((trees.drop (i * elem.leafCount)).take elem.leafCount))
  | .struct _ members, trees => .list none (t.memberTrees members trees)
  | _, trees => trees.headD (.literal [])

def Target.memberTrees (t : Target) : List (String × Ty) → List Tree → List Tree
  | [], _ => []
  | (_, ty) :: rest, trees =>
    t.listTree ty (trees.take ty.leafCount) :: t.memberTrees rest (trees.drop ty.leafCount)
end

namespace Cpp

variable {text : String} {tree : Tree} {items : List String} {trees : List Tree}

def IsItem (text : String) (tree : Tree) : Prop :=
  ∃ ts, lex text.toList = some ts ∧ ∀ head, (Enclosure.items head).Holds ts tree

theorem ReadsAs.isItem (h : ReadsAs text tree) : IsItem text tree := by
  obtain ⟨ops, base, ⟨⟨ts, hlex, hreads⟩, -, -⟩, rfl⟩ := h
  exact ⟨ts, hlex, fun _ => hreads.holds _⟩

theorem tokens_of_isItem (h : List.Forall₂ IsItem items trees) :
    ∃ tokens, List.Forall₂ (fun item ts => lex item.toList = some ts) items tokens ∧
      ∀ head, List.Forall₂ (Enclosure.items head).Holds tokens trees := by
  induction h with
  | nil => exact ⟨[], .nil, fun _ => .nil⟩
  | cons hitem _ ih =>
      obtain ⟨tokens, hlex, hholds⟩ := ih
      obtain ⟨ts, hts, hitem⟩ := hitem
      exact ⟨ts :: tokens, .cons hts hlex, fun head => .cons (hitem head) (hholds head)⟩

theorem IsItem.list (h : List.Forall₂ IsItem items trees) :
    IsItem (bracedList items) (.list none trees) := by
  obtain ⟨tokens, htokens, hholds⟩ := tokens_of_isItem h
  refine ⟨_, lex_bracedList htokens, fun head done stack s _ rest r hend => ?_⟩
  have opened : Reader.step ⟨.items head done :: stack, .operand⟩ (.sign .openBrace) =
      some ⟨.items none [] :: .items head done :: stack, .operand⟩ := rfl
  have inner := (Enclosure.items none).run_list (hholds none) (.items head done :: stack)
    (.sign s :: rest)
  rw [List.cons_append, List.append_assoc, List.singleton_append]
  exact (Reader.run_cons_of_step opened).trans (inner.trans (Reader.run_cons_of_step hend))

structure IsHead (text : String) (tree : Tree) : Prop where
  tokens : ∃ ts, lex text.toList = some ts ∧ Reads ts [] tree
  first : ∃ c rest, text.toList = c :: rest ∧ leads c
  isType : tree.isType

theorem IsHead.read (h : IsHead text tree) : read text = some tree := by
  obtain ⟨ts, hlex, hreads⟩ := h.tokens
  rw [Cpp.read, hlex, Option.bind_some, hreads.parse]
  rfl

theorem IsHead.of_identifier (hname : isIdentifier text.toList) : IsHead text (.ofName text) := by
  have name := Base.ofIdentifier hname
  exact ⟨name.tokens, name.first, rfl⟩

theorem IsHead.vector {elem : String} {ts : List Token} (h : SpellsType elem ts) :
    IsHead ("std::vector< " ++ elem ++ " >") (.vector ts) := by
  have chars : ("std::vector< " ++ elem ++ " >").toList =
      's' :: ("td::vector< ".toList ++ (elem.toList ++ " >".toList)) := by simp
  refine ⟨⟨_, lex_vector h.lexed, fun stack => ?_⟩, ⟨'s', _, chars, by decide⟩, rfl⟩
  have opened : Reader.run ⟨stack, .operand⟩ [.identifier "std".toList, .sign .qualifier,
      .identifier "vector".toList, .sign (.operator .lt)] = some ⟨stack, .type false 0 []⟩ := rfl
  have tokens : vectorTokens ts = [.identifier "std".toList, .sign .qualifier,
      .identifier "vector".toList, .sign (.operator .lt)] ++
        (ts ++ [Token.sign (.operator .gt)]) := rfl
  rw [tokens, Reader.run_append_of_run opened, Reader.run_append_of_run (h.reads ..)]
  rfl

theorem IsHead.list {head : String} {h : Tree} (hhead : IsHead head h)
    (hitems : List.Forall₂ IsItem items trees) :
    Base (head ++ bracedList items) (.list (some h) trees) := by
  obtain ⟨hs, hlex, hreads⟩ := hhead.tokens
  obtain ⟨tokens, htokens, hholds⟩ := tokens_of_isItem hitems
  obtain ⟨chars, hchars, hopened⟩ := lex_openedList htokens
  have whole : (head ++ bracedList items).toList =
      head.toList ++ '\x7b' :: chars ++ ['\x7d'] := by
    rw [String.toList_append, hchars, List.append_assoc]
  refine Base.of_close whole (by decide) rfl (lex_append_separator (by decide) hlex hopened) ?_ ?_
    rfl
  · intro stack
    have opened : Reader.step ⟨stack, .after h⟩ (.sign .openBrace) =
        some ⟨.items (some h) [] :: stack, .operand⟩ := if_pos hhead.isType
    rw [List.append_assoc, Reader.run_append_of_run (hreads stack), List.cons_append]
    exact (Reader.run_cons_of_step opened).trans
      ((Enclosure.items (some h)).run_list (hholds (some h)) stack [])
  · obtain ⟨c, rest, hchars, hc⟩ := hhead.first
    exact ⟨c, _, by rw [String.toList_append, hchars, List.cons_append], hc⟩

theorem isItem_chunks {f : List String → String} {g : List Tree → Tree} {width : Nat}
    (h : ∀ ts trees, ts.length = width → List.Forall₂ ReadsAs ts trees → IsItem (f ts) (g trees))
    (count : Nat) : ∀ ts trees, ts.length = width * count → List.Forall₂ ReadsAs ts trees →
      List.Forall₂ IsItem ((chunks width count ts).map f)
        ((List.range count).map fun i => g ((trees.drop (i * width)).take width)) := by
  induction count with
  | zero => exact fun _ _ _ _ => .nil
  | succ n ih =>
      intro ts trees hts htrees
      rw [Nat.mul_succ] at hts
      have first := h (ts.take width) (trees.take width) (by simp; omega)
        (List.forall₂_take width htrees)
      have others := ih (ts.drop width) (trees.drop width) (by simp; omega)
        (List.forall₂_drop width htrees)
      rw [chunks, List.range_succ_eq_map, List.map_cons, List.map_cons, List.map_map]
      refine .cons (by simpa using first) ?_
      simpa [Function.comp_def, Nat.succ_mul, Nat.add_comm] using others

end Cpp

namespace Target

theorem base_native (t : Target) (ht : isIdentifier t.vectorNamespace.toList) {elem : Ty}
    {size : Nat} {inContainer : Bool} {spelling : String} {shape : NativeShape}
    (h : t.arrayForm elem size inContainer = .native spelling shape) :
    Base spelling (.ofName spelling) := by
  obtain ⟨name, hname, rfl⟩ := t.native_spelling h
  have native := isIdentifier_native name hname
  exact .ofQualified ht native.1 fun hvector => native.2 hvector.2

theorem base_nativeSpelling (t : Target) (ht : isIdentifier t.vectorNamespace.toList) {ty : Ty}
    {spelling : String} (h : t.nativeSpelling? ty = some spelling) :
    Base spelling (.ofName spelling) := by
  unfold nativeSpelling? at h
  split at h
  · rename_i native shape hform
    obtain rfl := Option.some.inj h
    cases ty with
    | array elem size => exact t.base_native ht (Option.some.inj hform)
    | _ => cases hform
  · cases h

mutual
/-- The list that mirrors a type reads as the tree that mirrors it. -/
theorem isItem_mirror (t : Target) (ht : isIdentifier t.vectorNamespace.toList) : (ty : Ty) →
    ∀ ts trees, ts.length = ty.leafCount → List.Forall₂ ReadsAs ts trees →
      IsItem (t.mirror ty ts).layout (t.listTree ty trees)
  | .void, ts, trees, hts, h | .scalar _, ts, trees, hts, h | .string, ts, trees, hts, h => by
      obtain ⟨text, rfl⟩ := List.length_eq_one_iff.mp hts
      cases h with
      | cons hleaf hrest =>
          cases hrest
          simp only [mirror, listTree, InitTree.layout]
          exact hleaf.isItem
  | .array elem size, ts, trees, hts, h => by
      rw [mirror, listTree]
      cases hform : t.arrayForm elem size true with
      | native spelling shape =>
          dsimp only
          rw [InitTree.layout]
          exact ((t.base_native ht hform).apply h).readsAs.isItem
      | _ =>
          dsimp only
          rw [InitTree.layout, InitTree.layouts_eq_map, List.map_map]
          exact .list (isItem_chunks (isItem_mirror t ht elem) size ts trees hts h)
  | .struct name members, ts, trees, hts, h => by
      rw [mirror, listTree, InitTree.layout]
      exact .list (isItem_mirrorMembers t ht members ts trees hts h)

theorem isItem_mirrorMembers (t : Target) (ht : isIdentifier t.vectorNamespace.toList) :
    (members : List (String × Ty)) → ∀ ts trees, ts.length = Ty.leafCountMembers members →
      List.Forall₂ ReadsAs ts trees →
      List.Forall₂ IsItem (InitTree.layouts (t.mirrorMembers members ts))
        (t.memberTrees members trees)
  | [], _, _, _, _ => by
      rw [mirrorMembers, memberTrees]
      exact .nil
  | (name, ty) :: rest, ts, trees, hts, h => by
      rw [Ty.leafCountMembers] at hts
      rw [mirrorMembers, memberTrees, InitTree.layouts]
      exact .cons
        (isItem_mirror t ht ty _ _ (by simp; omega) (List.forall₂_take _ h))
        (isItem_mirrorMembers t ht rest _ _ (by simp; omega) (List.forall₂_drop _ h))
end

/-- The list of an aggregate that is no native value, after its type. -/
theorem base_list (t : Target) (ht : isIdentifier t.vectorNamespace.toList) {ty : Ty}
    (hnamed : ty.Named) (hcomposite : ty.isComposite) (hnative : t.nativeSpelling? ty = none)
    {ts : List String} {trees : List Tree} (hts : ts.length = ty.leafCount)
    (h : List.Forall₂ ReadsAs ts trees) :
    ∃ head, IsHead (t.spelling ty) head ∧
      Base (t.spelling ty ++ (t.mirror ty ts).layout) ((t.listTree ty trees).headed head) := by
  cases ty with
  | struct name members =>
      have spelled : t.spelling (.struct name members) = name := unqualified_of_isIdentifier hnamed
      have head : IsHead name (.ofName name) := .of_identifier hnamed
      rw [spelled, mirror, listTree, InitTree.layout]
      exact ⟨_, head, head.list (t.isItem_mirrorMembers ht members ts trees hts h)⟩
  | array elem size =>
      obtain ⟨tokens, htokens⟩ := spellsType t ht elem hnamed
      have items := isItem_chunks (t.isItem_mirror ht elem) size ts trees hts h
      cases hform : t.arrayForm elem size true with
      | native spelling shape =>
          rw [nativeSpelling?, arrayForm?, t.native_anywhere hform false] at hnative
          cases hnative
      | raw scalar size' => exact (t.arrayForm_ne_raw elem size scalar size' hform).elim
      | container elem' =>
          have spelled : t.spelling (.array elem size) =
              "std::vector< " ++ t.spelling elem ++ " >" := by
            simp only [spelling]
            rw [spell, hform]
          have head := IsHead.vector htokens
          rw [spelled, mirror, listTree, hform]
          dsimp only
          rw [InitTree.layout, InitTree.layouts_eq_map, List.map_map]
          exact ⟨_, head, head.list items⟩
  | _ => cases hcomposite

end Target
end ColorLowering
