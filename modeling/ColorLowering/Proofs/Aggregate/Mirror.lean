import ColorLowering.Aggregate.Braces
import ColorLowering.Proofs.Aggregate.Consumption

/-!
# Initializer lists mirror their types

Layout aside, an initializer list is written from a tree that mirrors the type: a constructor call
over the leaves of every native vector or matrix, and a list of the parts of every other array and
of every struct, each part over the leaves that are its own.
-/
namespace ColorLowering

/-- The first values of an object, nested as its type is. -/
inductive InitTree where
  | leaf (text : String)
  | call (spelling : String) (args : List String)
  | list (items : List InitTree)

namespace InitTree

mutual
def text : InitTree → String
  | .leaf text => text
  | .call spelling args => spelling ++ parenthesized (commaSeparated args)
  | .list items => "\x7b" ++ commaSeparated (texts items) ++ "\x7d"

def texts : List InitTree → List String
  | [] => []
  | item :: rest => item.text :: texts rest
end

mutual
def layout : InitTree → String
  | .leaf text => text
  | .call spelling args => spelling ++ parenthesized (commaSeparated args)
  | .list items => bracedList (layouts items)

def layouts : List InitTree → List String
  | [] => []
  | item :: rest => item.layout :: layouts rest
end

mutual
def leaves : InitTree → List String
  | .leaf text => [text]
  | .call _ args => args
  | .list items => itemLeaves items

def itemLeaves : List InitTree → List String
  | [] => []
  | item :: rest => item.leaves ++ itemLeaves rest
end

end InitTree

def chunks (width : Nat) : Nat → List String → List (List String)
  | 0, _ => []
  | count + 1, ts => ts.take width :: chunks width count (ts.drop width)

namespace Target

mutual
/-- The tree that mirrors a type, over the texts of its leaves. -/
def mirror (t : Target) : Ty → List String → InitTree
  | .array elem size, ts =>
    match t.arrayForm elem size true with
    | .native spelling _ => .call spelling ts
    | _ => .list ((chunks elem.leafCount size ts).map fun part => t.mirror elem part)
  | .struct _ members, ts => .list (t.mirrorMembers members ts)
  | _, ts => .leaf (ts.headD "")

def mirrorMembers (t : Target) : List (String × Ty) → List String → List InitTree
  | [], _ => []
  | (_, ty) :: rest, ts =>
    t.mirror ty (ts.take ty.leafCount) :: t.mirrorMembers rest (ts.drop ty.leafCount)
end

theorem itemLeaves_chunks {f : List String → InitTree} {width : Nat}
    (h : ∀ ts, ts.length = width → (f ts).leaves = ts) (count : Nat) :
    ∀ ts, ts.length = width * count →
      InitTree.itemLeaves ((chunks width count ts).map f) = ts := by
  induction count with
  | zero =>
      intro ts hts
      obtain rfl : ts = [] := List.eq_nil_of_length_eq_zero hts
      rfl
  | succ n ih =>
      intro ts hts
      rw [Nat.mul_succ] at hts
      rw [chunks, List.map_cons, InitTree.itemLeaves, h _ (by simp; omega),
        ih _ (by simp; omega), List.take_append_drop]

mutual
theorem leaves_mirror (t : Target) : (ty : Ty) → ∀ ts, ts.length = ty.leafCount →
    (t.mirror ty ts).leaves = ts
  | .void, ts, hts | .scalar _, ts, hts | .string, ts, hts => by
      obtain ⟨text, rfl⟩ := List.length_eq_one_iff.mp hts
      simp [mirror, InitTree.leaves]
  | .array elem size, ts, hts => by
      have items := itemLeaves_chunks (leaves_mirror t elem) size ts hts
      rw [mirror]
      cases t.arrayForm elem size true with
      | native spelling shape => simp only [InitTree.leaves]
      | raw element size => simpa only [InitTree.leaves] using items
      | container elem => simpa only [InitTree.leaves] using items
  | .struct name members, ts, hts => by
      rw [mirror, InitTree.leaves]
      exact leaves_mirrorMembers t members ts hts

theorem leaves_mirrorMembers (t : Target) : (members : List (String × Ty)) → ∀ ts,
    ts.length = Ty.leafCountMembers members →
    InitTree.itemLeaves (t.mirrorMembers members ts) = ts
  | [], ts, hts => by
      obtain rfl : ts = [] := List.eq_nil_of_length_eq_zero hts
      rfl
  | (name, ty) :: rest, ts, hts => by
      rw [Ty.leafCountMembers] at hts
      rw [mirrorMembers, InitTree.itemLeaves, leaves_mirror t ty _ (by simp; omega),
        leaves_mirrorMembers t rest _ (by simp; omega), List.take_append_drop]
end

end Target

/-- The text without blanks and line ends. -/
def squeezed (cs : List Char) : List Char := cs.filter fun c => c ≠ ' ' ∧ c ≠ '\n' ∧ c ≠ '\r'

theorem squeezed_append (a b : List Char) : squeezed (a ++ b) = squeezed a ++ squeezed b :=
  List.filter_append ..

theorem squeezed_lines (cs : List Char) : squeezed (Text.lines cs).flatten = squeezed cs := by
  induction cs with
  | nil => rfl
  | cons c rest ih =>
      by_cases hc : c = '\n'
      · rw [hc, Text.lines_newline, List.flatten_cons, List.nil_append, ih]
        rfl
      · have hlines : (Text.lines (c :: rest)).flatten = c :: (Text.lines rest).flatten := by
          simp [Text.lines, Text.cutFirst, Text.addFirst, hc]
        rw [hlines]
        simp only [squeezed, List.filter_cons] at ih ⊢
        rw [ih]

theorem squeezed_dropReturn (row : List Char) : squeezed (Text.dropReturn row) = squeezed row := by
  unfold Text.dropReturn
  by_cases hlast : row.getLast? = some '\r'
  · rw [if_pos hlast]
    obtain ⟨start, rfl⟩ := List.getLast?_eq_some_iff.mp hlast
    rw [List.dropLast_concat, squeezed_append]
    simp [squeezed]
  · rw [if_neg hlast]

theorem squeezed_flatten (rows : List (List Char)) :
    squeezed rows.flatten = (rows.map squeezed).flatten := by
  induction rows with
  | nil => rfl
  | cons row rest ih =>
      rw [List.flatten_cons, squeezed_append, ih, List.map_cons, List.flatten_cons]

theorem squeezed_rows (cs : List Char) : ((Text.rows cs).map squeezed).flatten = squeezed cs := by
  have cut : Text.lines cs = (Text.lines cs).dropLast ++ [(Text.lines cs).getLastD []] := by
    rw [List.getLastD_eq_getLast?, List.getLast?_eq_some_getLast (by simp [Text.lines])]
    exact (List.dropLast_concat_getLast _).symm
  have lastRow (last : List Char) : ((Text.lastRow last).map squeezed).flatten = squeezed last := by
    unfold Text.lastRow
    by_cases hempty : last.isEmpty
    · rw [if_pos hempty, List.isEmpty_iff.mp hempty]
      rfl
    · rw [if_neg hempty]
      simp
  have returns (rows : List (List Char)) :
      (rows.map Text.dropReturn).map squeezed = rows.map squeezed := by
    rw [List.map_map]
    exact List.map_congr_left fun row _ => squeezed_dropReturn row
  rw [Text.rows, List.map_append, List.flatten_append, returns, lastRow]
  have whole := squeezed_lines cs
  rw [cut, squeezed_flatten] at whole
  simpa using whole

theorem squeezed_intercalate (separator : String) (items : List String) :
    squeezed (separator.intercalate items).toList =
      (squeezed separator.toList).intercalate (items.map fun item => squeezed item.toList) := by
  match items with
  | [] => simp [squeezed]
  | [item] => simp
  | item :: next :: rest =>
    have ih := squeezed_intercalate separator (next :: rest)
    rw [String.intercalate_cons_cons, String.toList_append, String.toList_append, squeezed_append,
      squeezed_append, ih]
    simp [List.intercalate_cons_cons]

theorem intercalate_nil_left (rows : List (List Char)) : [].intercalate rows = rows.flatten := by
  match rows with
  | [] => rfl
  | [row] => simp
  | row :: next :: rest =>
    rw [List.intercalate_cons_cons, intercalate_nil_left (next :: rest)]
    simp

theorem squeezed_indentItem (item : String) :
    squeezed (indentItem item).toList = squeezed item.toList := by
  have row (cs : List Char) : squeezed ("    " ++ String.ofList cs).toList = squeezed cs := by
    simp [squeezed]
  rw [indentItem, squeezed_intercalate, List.map_map]
  have newline : squeezed "\n".toList = [] := rfl
  have rows : (Text.rows item.toList).map
      ((fun row => squeezed row.toList) ∘ fun row => "    " ++ String.ofList row) =
        (Text.rows item.toList).map squeezed := by
    apply List.map_congr_left
    intro cs _
    rw [Function.comp_apply, row]
  rw [newline, intercalate_nil_left, rows, squeezed_rows]

theorem squeezed_bracedList (items : List String) :
    squeezed (bracedList items).toList =
      '\x7b' :: (List.intercalate [','] (items.map fun item => squeezed item.toList) ++
        ['\x7d']) := by
  unfold bracedList
  by_cases hempty : items.isEmpty
  · rw [if_pos hempty, List.isEmpty_iff.mp hempty]
    rfl
  · rw [if_neg hempty]
    by_cases hinline : items.length ≤ inlineItems
    · rw [if_pos hinline]
      have opening : squeezed "\x7b ".toList = ['\x7b'] := by decide
      have comma : squeezed ", ".toList = [','] := by decide
      have closing : squeezed " \x7d".toList = ['\x7d'] := by decide
      rw [commaSeparated, String.toList_append, String.toList_append, squeezed_append,
        squeezed_append, squeezed_intercalate, opening, comma, closing, List.append_assoc,
        List.singleton_append]
    · rw [if_neg hinline]
      have opening : squeezed "\x7b\n".toList = ['\x7b'] := by decide
      have comma : squeezed ",\n".toList = [','] := by decide
      have closing : squeezed "\n\x7d".toList = ['\x7d'] := by decide
      have same : (items.map indentItem).map (fun item => squeezed item.toList) =
          items.map fun item => squeezed item.toList := by
        rw [List.map_map]
        apply List.map_congr_left
        intro item _
        rw [Function.comp_apply, squeezed_indentItem]
      rw [String.toList_append, String.toList_append, squeezed_append, squeezed_append,
        squeezed_intercalate, opening, comma, closing, same, List.append_assoc,
        List.singleton_append]

namespace InitTree

mutual
/-- The layout of a tree is its text, blanks aside. -/
theorem squeezed_layout : (tree : InitTree) →
    squeezed tree.layout.toList = squeezed tree.text.toList
  | .leaf text => by rw [layout, InitTree.text]
  | .call spelling args => by rw [layout, InitTree.text]
  | .list items => by
      rw [layout, InitTree.text, squeezed_bracedList, squeezed_layouts items]
      have opening : squeezed "\x7b".toList = ['\x7b'] := by decide
      have comma : squeezed ", ".toList = [','] := by decide
      have closing : squeezed "\x7d".toList = ['\x7d'] := by decide
      rw [String.toList_append, String.toList_append, squeezed_append, squeezed_append,
        commaSeparated, squeezed_intercalate, opening, comma, closing, List.append_assoc,
        List.singleton_append]

theorem squeezed_layouts : (items : List InitTree) →
    (layouts items).map (fun item => squeezed item.toList) =
      (texts items).map fun item => squeezed item.toList
  | [] => rfl
  | item :: rest => by
      rw [layouts, texts, List.map_cons, List.map_cons, squeezed_layout item, squeezed_layouts rest]
end

theorem layouts_eq_map (items : List InitTree) : layouts items = items.map layout := by
  induction items with
  | nil => rfl
  | cons item rest ih => rw [layouts, List.map_cons, ih]

end InitTree

theorem Leaves.run_repeated {α : Type} {layout : Leaves α} {width : Nat} {f : List String → α}
    (h : ∀ ts more, ts.length = width → layout.run (ts ++ more) = some (f ts, more)) (count : Nat) :
    ∀ start ts more, ts.length = width * count →
      (repeated (fun _ => layout) start count).run (ts ++ more) =
        some ((chunks width count ts).map f, more) := by
  induction count with
  | zero =>
      intro start ts more hts
      obtain rfl : ts = [] := List.eq_nil_of_length_eq_zero hts
      simp [chunks]
  | succ n ih =>
      intro start ts more hts
      rw [Nat.mul_succ] at hts
      have first := h (ts.take width) (ts.drop width ++ more) (by simp; omega)
      have others := ih (start + 1) (ts.drop width) more (by simp; omega)
      rw [repeated_succ, append_eq_take_drop width]
      simp [first, others, chunks]

namespace Target

mutual
theorem run_braces (t : Target) : (ty : Ty) → ∀ ts more, ts.length = ty.leafCount →
    (t.braces ty).run (ts ++ more) = some ((t.mirror ty ts).layout, more)
  | .void, ts, more, hts | .scalar _, ts, more, hts | .string, ts, more, hts => by
      obtain ⟨text, rfl⟩ := List.length_eq_one_iff.mp hts
      simp only [braces, mirror, InitTree.layout]
      rfl
  | .array elem size, ts, more, hts => by
      have list : (do
            return bracedList (← Leaves.repeated (fun _ => t.braces elem) 0 size) :
              Leaves String).run (ts ++ more) =
          some ((InitTree.list ((chunks elem.leafCount size ts).map
            fun part => t.mirror elem part)).layout, more) := by
        have items := Leaves.run_repeated (run_braces t elem) size 0 ts more hts
        rw [InitTree.layout, InitTree.layouts_eq_map, List.map_map]
        simp [items, Function.comp_def]
      rw [braces, mirror]
      cases t.arrayForm elem size true with
      | native spelling shape =>
          dsimp only
          rw [InitTree.layout]
          simp [Leaves.run_flat hts]
      | raw element size => exact list
      | container elem => exact list
  | .struct name members, ts, more, hts => by
      rw [braces, mirror, InitTree.layout]
      simp [run_bracesMembers t members ts more hts]

theorem run_bracesMembers (t : Target) : (members : List (String × Ty)) → ∀ ts more,
    ts.length = Ty.leafCountMembers members →
    (t.bracesMembers members).run (ts ++ more) =
      some (InitTree.layouts (t.mirrorMembers members ts), more)
  | [], ts, more, hts => by
      obtain rfl : ts = [] := List.eq_nil_of_length_eq_zero hts
      rw [bracesMembers, mirrorMembers, InitTree.layouts]
      rfl
  | (name, ty) :: rest, ts, more, hts => by
      rw [Ty.leafCountMembers] at hts
      have first := run_braces t ty (ts.take ty.leafCount) (ts.drop ty.leafCount ++ more)
        (by simp; omega)
      have others := run_bracesMembers t rest (ts.drop ty.leafCount) more (by simp; omega)
      rw [bracesMembers, mirrorMembers, InitTree.layouts, Leaves.append_eq_take_drop ty.leafCount]
      simp [first, others]
end

end Target
end ColorLowering
