import ColorLowering.Proofs.Store.Interned
import ColorLowering.Store.Basic

/-!
# Histories of a store

Whoever builds a program performs one operation on its store after the other, in any order, and gets
an identity from each. A store only ever gets longer, so what reads back under an identity once
reads back under it at every later time.
-/
namespace ColorLowering

namespace Store

inductive Operation where
  | name (text : String)
  | type (node : TypeNode)
  | array (elem : TypeId) (size : Nat)
  | struct (name : NameId) (members : List (NameId × TypeId))
  | symbol (entry : SymbolEntry)
  | expr (entry : ExprEntry)
  | stmt (entry : StmtEntry)
  | exprList (ids : List ExprId)
  | stmtList (ids : List StmtId)
  | module (name file : String)

/-- What an operation is answered with. -/
inductive Identity where
  | name (id : NameId)
  | type (id : TypeId)
  | symbol (id : SymbolId)
  | expr (id : ExprId)
  | stmt (id : StmtId)
  | exprs (span : Span)
  | stmts (span : Span)
  | module (id : ModuleId)

namespace Operation

def text? : Operation → Option String
  | .name text => some text
  | .module text _ => some text
  | _ => none

def node? : Operation → Option TypeNode
  | .type node => some node
  | .array elem size => some (.array elem size)
  | .struct id members => some (.struct id members)
  | _ => none

end Operation

def perform (s : Store) : Operation → Identity × Store
  | .name text => (s.intern text).map .name id
  | .type node => (s.internType node).map .type id
  | .array elem size => (s.types.array elem size).map .type fun types => { s with types }
  | .struct name members => (s.types.struct name members).map .type fun types => { s with types }
  | .symbol entry => (s.addSymbol entry).map .symbol id
  | .expr entry => (s.addExpr entry).map .expr id
  | .stmt entry => (s.addStmt entry).map .stmt id
  | .exprList ids => (s.addExprList ids).map .exprs id
  | .stmtList ids => (s.addStmtList ids).map .stmts id
  | .module name file => (s.addModule name file).map .module id

def after (ops : List Operation) : Store := ops.foldl (fun s op => (s.perform op).2) .empty

/-- In the course of the operations, `op` is performed after `i` others and answered with `id`. -/
structure Answered (ops : List Operation) (i : Nat) (op : Operation) (id : Identity) : Prop where
  performed : ops[i]? = some op
  answer : ((after (ops.take i)).perform op).1 = id

theorem after_concat (ops : List Operation) (op : Operation) :
    after (ops ++ [op]) = ((after ops).perform op).2 := by
  rw [after, List.foldl_concat, after]

theorem after_take_succ {ops : List Operation} {i : Nat} {op : Operation} (h : ops[i]? = some op) :
    after (ops.take (i + 1)) = ((after (ops.take i)).perform op).2 := by
  rw [List.take_add_one, h, Option.toList_some, after_concat]

/-! ### Nothing is changed -/

structure Extends (s t : Store) : Prop where
  names : s.names.texts.items.toList <+: t.names.texts.items.toList
  types : s.types.nodes.items.toList <+: t.types.nodes.items.toList
  symbols : s.symbols.toList <+: t.symbols.toList
  exprs : s.exprs.toList <+: t.exprs.toList
  exprLists : s.exprLists.toList <+: t.exprLists.toList
  stmts : s.stmts.toList <+: t.stmts.toList
  stmtLists : s.stmtLists.toList <+: t.stmtLists.toList
  modules : s.modules.toList <+: t.modules.toList

variable {s t u : Store} {op : Operation} {id : Identity} {ops : List Operation} {i j : Nat}

theorem Extends.refl (s : Store) : s.Extends s := by
  constructor <;> exact List.prefix_rfl

theorem Extends.trans (hst : s.Extends t) (htu : t.Extends u) : s.Extends u where
  names := hst.names.trans htu.names
  types := hst.types.trans htu.types
  symbols := hst.symbols.trans htu.symbols
  exprs := hst.exprs.trans htu.exprs
  exprLists := hst.exprLists.trans htu.exprLists
  stmts := hst.stmts.trans htu.stmts
  stmtLists := hst.stmtLists.trans htu.stmtLists
  modules := hst.modules.trans htu.modules

theorem extends_perform (s : Store) (op : Operation) : s.Extends (s.perform op).2 := by
  have same := Extends.refl s
  cases op with
  | name text => exact { same with names := s.names.texts.prefix_intern text }
  | type node => exact { same with types := s.types.nodes.prefix_intern node }
  | array elem size => exact { same with types := s.types.nodes.prefix_intern _ }
  | struct name members => exact { same with types := s.types.nodes.prefix_intern _ }
  | symbol entry => exact { same with symbols := by simp [perform, addSymbol] }
  | expr entry => exact { same with exprs := by simp [perform, addExpr] }
  | stmt entry => exact { same with stmts := by simp [perform, addStmt] }
  | exprList ids => exact { same with exprLists := by simp [perform, addExprList] }
  | stmtList ids => exact { same with stmtLists := by simp [perform, addStmtList] }
  | module name file =>
      exact { same with
        names := s.names.texts.prefix_intern name
        modules := by simp [perform, addModule, intern] }

theorem extends_of_isPrefix {before ops : List Operation} (h : before <+: ops) :
    (after before).Extends (after ops) := by
  obtain ⟨later, rfl⟩ := h
  induction later using List.reverseRecOn with
  | nil =>
      rw [List.append_nil]
      exact .refl _
  | append_singleton later op ih =>
      rw [← List.append_assoc, after_concat]
      exact ih.trans (extends_perform _ op)

/-! ### Everything reads back -/

/-- The data that come to be interned: those that are there from the start, and then what `f` finds
in each operation. -/
def entered {α : Type} (start : List α) (f : Operation → Option α) (ops : List Operation) :
    List α :=
  start ++ ops.filterMap f

def texts (ops : List Operation) : List String := entered [""] Operation.text? ops

def nodes (ops : List Operation) : List TypeNode :=
  entered TypeStore.primitives Operation.node? ops

theorem entered_concat {α : Type} (start : List α) (f : Operation → Option α)
    (ops : List Operation) (op : Operation) :
    entered start f (ops ++ [op]) = entered start f ops ++ (f op).toList := by
  cases h : f op <;> simp [entered, h]

/-- A table into which each operation interns what `f` finds in it holds all that was entered. -/
theorem holds_entered {α : Type} [DecidableEq α] {start : List α} {f : Operation → Option α}
    (table : Store → Interned α) (hstart : (table .empty).Holds start)
    (hstep : ∀ s op, table (s.perform op).2 =
      (f op).elim (table s) fun a => ((table s).intern a).2) (ops : List Operation) :
    (table (after ops)).Holds (entered start f ops) := by
  induction ops using List.reverseRecOn with
  | nil =>
      rw [entered, List.filterMap_nil, List.append_nil]
      exact hstart
  | append_singleton ops op ih =>
      rw [after_concat, hstep, entered_concat]
      cases f op with
      | none => simpa using ih
      | some a => exact ih.snd_intern a

theorem holds_texts (ops : List Operation) : (after ops).names.texts.Holds (texts ops) :=
  holds_entered (fun s => s.names.texts) (Interned.holds_ofList _) (fun _ op => by cases op <;> rfl)
    ops

theorem holds_nodes (ops : List Operation) : (after ops).types.nodes.Holds (nodes ops) :=
  holds_entered (fun s => s.types.nodes) (Interned.holds_ofList _) (fun _ op => by cases op <;> rfl)
    ops

end Store

theorem getElem?_of_isPrefix {α : Type} {xs ys : Array α} {i : Nat} {a : α}
    (h : xs.toList <+: ys.toList) (ha : xs[i]? = some a) : ys[i]? = some a := by
  obtain ⟨more, h⟩ := h
  rw [← Array.getElem?_toList] at ha ⊢
  rw [← h, List.getElem?_append_left (List.getElem?_eq_some_iff.mp ha).1, ha]

/-- The identity was given out, and what is looked up under it is the text. -/
def NameStore.Reads (t : NameStore) (id : NameId) (text : String) : Prop :=
  id.index < t.size ∧ t.lookup id = text

namespace NameStore

variable {t u : NameStore} {id : NameId} {text : String}

theorem reads_iff : t.Reads id text ↔ t.texts.items[id.index]? = some text := by
  rw [Reads, lookup, Array.getD_eq_getD_getElem?, size]
  by_cases h : id.index < t.texts.items.size
  · simp [h]
  · simp [h]

theorem Reads.mono (h : t.Reads id text) (htu : t.texts.items.toList <+: u.texts.items.toList) :
    u.Reads id text :=
  reads_iff.mpr (getElem?_of_isPrefix htu (reads_iff.mp h))

theorem reads_intern {as : List String} (h : t.texts.Holds as) (text : String) :
    (t.intern text).2.Reads (t.intern text).1 text :=
  reads_iff.mpr (h.getElem?_intern text)

end NameStore

/-- The list lies in this part of the side list. -/
structure Span.Reads {α : Type} (r : Span) (side : Array α) (items : List α) : Prop where
  within : r.start + r.length ≤ side.size
  read : r.read side = items
  isEmpty : r.isEmpty ↔ items = []

namespace Span

variable {α : Type} {r : Span} {side more : Array α} {items : List α}

theorem size_append_list (side : Array α) (items : List α) :
    (side ++ items).size = side.size + items.length := by
  rw [← Array.length_toList, Array.toList_appendList, List.length_append, Array.length_toList]

theorem reads_append (side : Array α) (items : List α) :
    (⟨side.size, items.length⟩ : Span).Reads (side ++ items) items where
  within := Nat.le_of_eq (size_append_list side items).symm
  read := by
    rw [Span.read, Array.toList_extract, Array.toList_appendList]
    simp [List.extract_eq_take_drop]
  isEmpty := by simp [Span.isEmpty]

theorem Reads.mono (h : r.Reads side items) (hmore : side.toList <+: more.toList) :
    r.Reads more items where
  within := by
    have longer := hmore.length_le
    rw [Array.length_toList, Array.length_toList] at longer
    exact Nat.le_trans h.within longer
  read := by
    have fits : r.length ≤ (side.toList.drop r.start).length := by
      have := h.within
      simp only [List.length_drop, Array.length_toList]
      omega
    have start : r.start ≤ side.toList.length := by
      have := h.within
      simp only [Array.length_toList]
      omega
    obtain ⟨later, hlater⟩ := hmore
    rw [← h.read, Span.read, Span.read, Array.toList_extract, Array.toList_extract, ← hlater,
      List.extract_eq_take_drop, List.extract_eq_take_drop, Nat.add_sub_cancel_left,
      List.drop_append_of_le_length start, List.take_append_of_le_length fits]
  isEmpty := h.isEmpty

end Span

namespace Store

/-- What the operation put into the store is found there under the identity. -/
inductive ReadsBack (s : Store) : Operation → Identity → Prop where
  | name {text : String} {id : NameId} (h : s.names.Reads id text) :
    ReadsBack s (.name text) (.name id)
  | type {op : Operation} {node : TypeNode} {id : TypeId} (hop : op.node? = some node)
    (h : s.types.node? id = some node) : ReadsBack s op (.type id)
  | symbol {entry : SymbolEntry} {id : SymbolId} (h : s.symbols[id.index]? = some entry) :
    ReadsBack s (.symbol entry) (.symbol id)
  | expr {entry : ExprEntry} {id : ExprId} (h : s.exprs[id.index]? = some entry) :
    ReadsBack s (.expr entry) (.expr id)
  | stmt {entry : StmtEntry} {id : StmtId} (h : s.stmts[id.index]? = some entry) :
    ReadsBack s (.stmt entry) (.stmt id)
  | exprList {ids : List ExprId} {r : Span} (h : r.Reads s.exprLists ids) :
    ReadsBack s (.exprList ids) (.exprs r)
  | stmtList {ids : List StmtId} {r : Span} (h : r.Reads s.stmtLists ids) :
    ReadsBack s (.stmtList ids) (.stmts r)
  | module {name file : String} {id : ModuleId} {nameId : NameId}
    (h : s.modules[id.index]? = some ⟨nameId, file, [], [], []⟩)
    (hname : s.names.Reads nameId name) : ReadsBack s (.module name file) (.module id)

variable {s t : Store} {op : Operation} {id : Identity} {ops : List Operation} {i j : Nat}

theorem ReadsBack.mono (h : s.ReadsBack op id) (hst : s.Extends t) : t.ReadsBack op id := by
  cases h with
  | name h => exact .name (h.mono hst.names)
  | type hop h => exact .type hop (getElem?_of_isPrefix hst.types h)
  | symbol h => exact .symbol (getElem?_of_isPrefix hst.symbols h)
  | expr h => exact .expr (getElem?_of_isPrefix hst.exprs h)
  | stmt h => exact .stmt (getElem?_of_isPrefix hst.stmts h)
  | exprList h => exact .exprList (h.mono hst.exprLists)
  | stmtList h => exact .stmtList (h.mono hst.stmtLists)
  | module h hname => exact .module (getElem?_of_isPrefix hst.modules h) (hname.mono hst.names)

theorem readsBack_perform (op : Operation) :
    ((after ops).perform op).2.ReadsBack op ((after ops).perform op).1 := by
  have names := holds_texts ops
  have types := holds_nodes ops
  cases op with
  | name text => exact .name (NameStore.reads_intern names text)
  | type node => exact .type rfl (types.getElem?_intern node)
  | array elem size => exact .type rfl (types.getElem?_intern _)
  | struct name members => exact .type rfl (types.getElem?_intern _)
  | symbol entry => exact .symbol Array.getElem?_push_size
  | expr entry => exact .expr Array.getElem?_push_size
  | stmt entry => exact .stmt Array.getElem?_push_size
  | exprList ids => exact .exprList (Span.reads_append _ ids)
  | stmtList ids => exact .stmtList (Span.reads_append _ ids)
  | module name file =>
      exact .module Array.getElem?_push_size (NameStore.reads_intern names name)

/-- And at every later time. -/
theorem Answered.readsBack (h : Answered ops i op id) (hij : i < j) :
    (after (ops.take j)).ReadsBack op id := by
  have now : (after (ops.take (i + 1))).ReadsBack op id := by
    rw [after_take_succ h.performed, ← h.answer]
    exact readsBack_perform op
  exact now.mono (extends_of_isPrefix (List.take_prefix_take_left hij))

end Store
end ColorLowering
