import ColorLowering.Proofs.Calls.Arguments
import ColorLowering.Store.Resolve

/-!
# Calls of a stored program

When a store is unfolded to trees, a call gets a slot for each parameter of its callee, under the
name and with the type of the parameter. So in every program that comes from a store all calls fit
the functions that they call, however often an argument or a default refers to others.
-/
namespace ColorLowering

mutual
/-- Every call of a function in the expression has the slots of its parameters. -/
def Expr.Fitted (p : Program) : Expr → Prop
  | .literal .. => True
  | .name .. => True
  | .binary _ _ _ left right => left.Fitted p ∧ right.Fitted p
  | .unary _ _ operand => operand.Fitted p
  | .index _ array position => array.Fitted p ∧ position.Fitted p
  | .member _ object _ => object.Fitted p
  | .call _ (.function symbol slots) args =>
    (∃ params, p.CallFits symbol params slots) ∧ Expr.AllFitted p args ∧ Expr.SlotsFitted p slots
  | .call _ (.variable _) args => Expr.AllFitted p args
  | .call _ .computed args => Expr.AllFitted p args
  | .aggregate _ leaves => Expr.AllFitted p leaves
  | .size _ array => array.Fitted p
  | .unresolved _ => True

def Expr.AllFitted (p : Program) : List Expr → Prop
  | [] => True
  | e :: es => e.Fitted p ∧ Expr.AllFitted p es

def Expr.SlotsFitted (p : Program) : List Slot → Prop
  | [] => True
  | .required .. :: rest => Expr.SlotsFitted p rest
  | .optional _ _ _ default :: rest => default.Fitted p ∧ Expr.SlotsFitted p rest
end

namespace Unfolding

variable {α : Type} {u : Unfolding α} {P : α → Prop}

def AllKnown (P : α → Prop) (known : Array (Option α)) : Prop :=
  ∀ i a, known.getD i none = some a → P a

section
variable (hbuild : ∀ part i a, (∀ j b, part j = some b → P b) → u.build part i = some a → P a)
include hbuild

theorem allKnown_finish {known : Array (Option α)} (h : AllKnown P known) (i : Nat) :
    AllKnown P (u.finish known i) := by
  unfold finish
  split
  · exact h
  · intro j a hj
    rw [Array.getD_eq_getD_getElem?, Array.getElem?_setIfInBounds] at hj
    split at hj
    · split at hj
      · exact hbuild _ i a h hj
      · cases hj
    · exact h j a (by rwa [Array.getD_eq_getD_getElem?])

theorem allKnown_sweep {known : Array (Option α)} (h : AllKnown P known) :
    AllKnown P (u.sweep known) := by
  unfold sweep
  generalize List.range u.count ++ (List.range u.count).reverse = order
  induction order generalizing known with
  | nil => exact h
  | cons i rest ih => exact ih (allKnown_finish hbuild h i)

theorem allKnown_settle (rounds : Nat) {known : Array (Option α)} (h : AllKnown P known) :
    AllKnown P (u.settle rounds known) := by
  induction rounds generalizing known with
  | zero => exact h
  | succ n ih =>
      rw [settle]
      split
      · exact allKnown_sweep hbuild h
      · exact ih (allKnown_sweep hbuild h)

variable (hcut : ∀ i, P (u.cut i))
include hcut

theorem of_mem_level {known : Array (Option α)} (h : AllKnown P known) (depth : Nat) :
    ∀ a ∈ u.level known depth, P a := by
  induction depth with
  | zero =>
      intro a ha
      rw [level, Array.mem_map] at ha
      obtain ⟨i, -, rfl⟩ := ha
      cases hi : known.getD i none with
      | none => exact hcut i
      | some a => exact h i a hi
  | succ n ih =>
      have below (j : Nat) : P ((u.level known n).getD j (u.cut j)) := by
        rw [Array.getD_eq_getD_getElem?]
        cases hj : (u.level known n)[j]? with
        | none => exact hcut j
        | some a => exact ih a (Array.mem_of_getElem? hj)
      intro a ha
      rw [level, Array.mem_map] at ha
      obtain ⟨i, -, rfl⟩ := ha
      cases hi : known.getD i none with
      | some a => exact h i a hi
      | none =>
          dsimp only [Option.getD_none]
          cases hbuilt : u.build _ i with
          | none => exact hcut i
          | some a =>
              refine hbuild _ i a (fun j b hb => ?_) hbuilt
              obtain rfl := Option.some.inj hb
              exact below j

/-- What holds of a tree that is cut, and of a tree if it holds of its parts, holds of all trees. -/
theorem of_mem_trees : ∀ a ∈ u.trees, P a := by
  have nothing : AllKnown P (Array.replicate u.count (none : Option α)) := by
    intro i a h
    rw [Array.getD_eq_getD_getElem?, Array.getElem?_replicate] at h
    split at h <;> cases h
  exact of_mem_level hbuild hcut (allKnown_settle hbuild u.count nothing) _

end
end Unfolding

theorem forall₂_of_mapM {α β : Type} {f : α → Option β} {xs : List α} {ys : List β}
    (h : xs.mapM f = some ys) : List.Forall₂ (fun x y => f x = some y) xs ys := by
  induction xs generalizing ys with
  | nil =>
      cases h
      exact .nil
  | cons x rest ih =>
      rw [List.mapM_cons, Option.bind_eq_bind, Option.bind_eq_some_iff] at h
      obtain ⟨y, hy, h⟩ := h
      rw [Option.bind_eq_bind, Option.bind_eq_some_iff] at h
      obtain ⟨others, hothers, h⟩ := h
      cases h
      exact .cons hy (ih hothers)

namespace Store

variable {s : Store} {types : Array (Option Ty)} {part : ExprId → Option Expr}

theorem symbol_program (s : Store) {id : SymbolId} {entry : SymbolEntry}
    (h : s.symbols[id.index]? = some entry) :
    s.program.symbol id = symbol s.names (s.types.trees s.names) entry := by
  simp [program, Program.symbol, Array.getD_eq_getD_getElem?, h]

section
variable (hpart : ∀ id e, part id = some e → e.Fitted s.program)
include hpart

theorem allFitted_of_mapM {ids : List ExprId} {es : List Expr} (h : ids.mapM part = some es) :
    Expr.AllFitted s.program es := by
  have made := forall₂_of_mapM h
  clear h
  induction made with
  | nil => trivial
  | cons hfirst _ ih => exact ⟨hpart _ _ hfirst, ih⟩

/-- A slot is that of its parameter, and has a default where no argument is given. -/
theorem slot?_fits {supplied i : Nat} {entry : ParamEntry} {slot : Slot}
    (h : s.slot? types part supplied i entry = some slot) :
    slot.Fits ⟨s.names.lookup entry.name, ty types entry.ty, entry.access⟩ ∧
      Expr.SlotsFitted s.program [slot] := by
  unfold slot? at h
  dsimp only at h
  split at h
  · split at h
    · cases h
      exact ⟨⟨rfl, rfl⟩, trivial⟩
    · rw [Option.map_eq_some_iff] at h
      obtain ⟨default, hdefault, rfl⟩ := h
      exact ⟨⟨rfl, rfl⟩, hpart _ _ hdefault, trivial⟩
  · cases h
    exact ⟨⟨rfl, rfl⟩, trivial⟩

theorem slots_fit {supplied start : Nat} {entries : List ParamEntry} {slots : List Slot}
    (h : List.Forall₂ (fun entry slot => s.slot? types part supplied entry.2 entry.1 = some slot)
      (entries.zipIdx start) slots) :
    List.Forall₂ Slot.Fits (entries.map fun entry =>
        ⟨s.names.lookup entry.name, ty types entry.ty, entry.access⟩) slots ∧
      Expr.SlotsFitted s.program slots := by
  induction entries generalizing start slots with
  | nil =>
      cases h
      exact ⟨.nil, trivial⟩
  | cons entry rest ih =>
      cases h with
      | @cons _ slot _ others hfirst hrest =>
          obtain ⟨fits, fitted⟩ := slot?_fits hpart hfirst
          obtain ⟨othersFit, othersFitted⟩ := ih hrest
          refine ⟨.cons fits othersFit, ?_⟩
          cases slot with
          | required => exact othersFitted
          | optional => exact ⟨fitted.1, othersFitted⟩

/-- A callee is a function with the slots of its parameters, or none that can be called by name. -/
theorem callee?_fits (htypes : types = s.types.trees s.names) {supplied : Nat} {id : ExprId}
    {callee : Callee} (h : s.callee? types part supplied id = some callee) :
    (∃ symbol params slots, callee = .function symbol slots ∧
      s.program.CallFits symbol params slots ∧ Expr.SlotsFitted s.program slots) ∨
    (∃ symbol, callee = .variable symbol) ∨ callee = .computed := by
  unfold callee? at h
  split at h
  · rename_i symbol _
    split at h
    · rename_i entries ret hshape
      rw [Option.bind_eq_bind, Option.bind_eq_some_iff] at h
      obtain ⟨slots, hslots, h⟩ := h
      cases h
      obtain ⟨entry, hentry, hkind⟩ := Option.map_eq_some_iff.mp hshape
      obtain ⟨fits, fitted⟩ := slots_fit hpart (forall₂_of_mapM hslots)
      refine .inl ⟨symbol, _, slots, rfl, ⟨⟨ty types ret, ?_⟩, fits⟩, fitted⟩
      rw [symbol_program s hentry, Store.symbol, hkind, symbolKind, htypes]
    · cases h
      exact .inr (.inl ⟨symbol, rfl⟩)
  · cases h
    exact .inr (.inr rfl)

theorem fitted_of_parts (htypes : types = s.types.trees s.names) {entry : ExprEntry} {e : Expr}
    (h : s.exprOfParts? types part entry = some e) : e.Fitted s.program := by
  unfold exprOfParts? at h
  simp only [Option.bind_eq_bind, Option.pure_def] at h
  split at h
  · cases h
    trivial
  · cases h
    trivial
  · cases h
    trivial
  · simp only [Option.bind_eq_some_iff, Option.some.injEq] at h
    obtain ⟨left, hleft, right, hright, rfl⟩ := h
    exact ⟨hpart _ _ hleft, hpart _ _ hright⟩
  · simp only [Option.bind_eq_some_iff, Option.some.injEq] at h
    obtain ⟨operand, hoperand, rfl⟩ := h
    rw [Expr.Fitted]
    exact hpart _ _ hoperand
  · simp only [Option.bind_eq_some_iff, Option.some.injEq] at h
    obtain ⟨array, harray, position, hposition, rfl⟩ := h
    exact ⟨hpart _ _ harray, hpart _ _ hposition⟩
  · simp only [Option.bind_eq_some_iff, Option.some.injEq] at h
    obtain ⟨object, hobject, rfl⟩ := h
    rw [Expr.Fitted]
    exact hpart _ _ hobject
  · simp only [Option.bind_eq_some_iff, Option.some.injEq] at h
    obtain ⟨args, hargs, callee, hcallee, rfl⟩ := h
    have fitted := allFitted_of_mapM hpart hargs
    obtain ⟨symbol, params, slots, rfl, fits, hslots⟩ | ⟨symbol, rfl⟩ | rfl :=
      callee?_fits hpart htypes hcallee
    · exact ⟨⟨params, fits⟩, fitted, hslots⟩
    · exact fitted
    · exact fitted
  · simp only [Option.bind_eq_some_iff, Option.some.injEq] at h
    obtain ⟨leaves, hleaves, rfl⟩ := h
    exact allFitted_of_mapM hpart hleaves
  · simp only [Option.bind_eq_some_iff, Option.some.injEq] at h
    obtain ⟨array, harray, rfl⟩ := h
    rw [Expr.Fitted]
    exact hpart _ _ harray

end

theorem fitted_exprTrees (s : Store) :
    ∀ e ∈ s.exprTrees (s.types.trees s.names), e.Fitted s.program := by
  apply Unfolding.of_mem_trees
  · intro part i e hpart h
    obtain ⟨entry, -, h⟩ := Option.bind_eq_some_iff.mp h
    exact fitted_of_parts (fun id e he => hpart id.index e he) rfl h
  · intro i
    trivial

theorem exprsAll_eq_flatMap (body : List Stmt) : Stmt.exprsAll body = body.flatMap Stmt.exprs := by
  induction body with
  | nil => rfl
  | cons st rest ih => rw [Stmt.exprsAll, ih, List.flatMap_cons]

theorem fitted_of_body {p : Program} {part : StmtId → Option Stmt}
    (hpart : ∀ id st, part id = some st → ∀ e ∈ st.exprs, e.Fitted p) {ids : List StmtId}
    {body : List Stmt} (h : ids.mapM part = some body) :
    ∀ e ∈ Stmt.exprsAll body, e.Fitted p := by
  have made := forall₂_of_mapM h
  clear h
  induction made with
  | nil => simp [Stmt.exprsAll]
  | cons hfirst _ ih =>
      rw [Stmt.exprsAll, List.forall_mem_append]
      exact ⟨hpart _ _ hfirst, ih⟩

theorem fitted_of_stmtParts {p : Program} {expr : ExprId → Expr}
    (hexpr : ∀ id, (expr id).Fitted p) {part : StmtId → Option Stmt}
    (hpart : ∀ id st, part id = some st → ∀ e ∈ st.exprs, e.Fitted p) {entry : StmtEntry}
    {st : Stmt} (h : s.stmtOfParts? expr part entry = some st) :
    ∀ e ∈ st.exprs, e.Fitted p := by
  have optional (id : Option ExprId) : ∀ e ∈ (id.map expr).toList, e.Fitted p := by
    cases id with
    | none => simp
    | some id => simpa using hexpr id
  unfold stmtOfParts? at h
  simp only [Option.bind_eq_bind, Option.pure_def] at h
  cases entry with
  | declare symbol init =>
      cases h
      exact optional init
  | assign target value =>
      cases h
      exact List.forall_mem_cons.mpr ⟨hexpr target, by simpa using hexpr value⟩
  | eval e =>
      cases h
      simpa [Stmt.exprs] using hexpr e
  | branch cond thenBody elseBody =>
      simp only [Option.bind_eq_some_iff, Option.some.injEq] at h
      obtain ⟨thenStmts, hthen, elseStmts, helse, rfl⟩ := h
      rw [Stmt.exprs, List.forall_mem_cons, List.forall_mem_append]
      exact ⟨hexpr cond, fitted_of_body hpart hthen, fitted_of_body hpart helse⟩
  | loop cond body =>
      simp only [Option.bind_eq_some_iff, Option.some.injEq] at h
      obtain ⟨stmts, hbody, rfl⟩ := h
      rw [Stmt.exprs, List.forall_mem_cons]
      exact ⟨hexpr cond, fitted_of_body hpart hbody⟩
  | ret value =>
      cases h
      exact optional value

theorem fitted_stmtTrees (s : Store) {expr : ExprId → Expr}
    (hexpr : ∀ id, (expr id).Fitted s.program) :
    ∀ st ∈ s.stmtTrees expr, ∀ e ∈ st.exprs, e.Fitted s.program := by
  apply Unfolding.of_mem_trees (P := fun st : Stmt => ∀ e ∈ st.exprs, e.Fitted s.program)
  · intro part i st hpart h
    obtain ⟨entry, -, h⟩ := Option.bind_eq_some_iff.mp h
    exact fitted_of_stmtParts hexpr (fun id st hst => hpart id.index st hst) h
  · intro i e he
    cases he

/-- In a program that comes from a store every call has the slots of its function's parameters. -/
theorem fitted_program (s : Store) {m : ModuleId} {portable : Bool} {e : Expr}
    (he : s.program.RendersAt m portable e) : e.Fitted s.program := by
  let expr (id : ExprId) : Expr :=
    (s.exprTrees (s.types.trees s.names)).getD id.index (.unresolved .void)
  let stmt (id : StmtId) : Stmt := (s.stmtTrees expr).getD id.index .unresolved
  have hexpr (id : ExprId) : (expr id).Fitted s.program := by
    change Expr.Fitted _ (Array.getD _ _ _)
    rw [Array.getD_eq_getD_getElem?]
    cases h : (s.exprTrees (s.types.trees s.names))[id.index]? with
    | none => trivial
    | some e => exact fitted_exprTrees s e (Array.mem_of_getElem? h)
  have hstmt (id : StmtId) : ∀ e ∈ (stmt id).exprs, e.Fitted s.program := by
    change ∀ e ∈ Stmt.exprs (Array.getD _ _ _), _
    rw [Array.getD_eq_getD_getElem?]
    cases h : (s.stmtTrees expr)[id.index]? with
    | none => simp [Stmt.exprs]
    | some st => exact fitted_stmtTrees s hexpr st (Array.mem_of_getElem? h)
  have listed : s.program.module m = ((s.modules[m.index]?).map
      (s.module expr (s.types.trees s.names) stmt)).getD ⟨"", "", [], [], []⟩ := by
    simp [program, Program.module, Array.getD_eq_getD_getElem?, expr, stmt]
  cases hentry : s.modules[m.index]? with
  | none =>
      rw [hentry] at listed
      cases he with
      | constant hc _ => rw [listed] at hc; cases hc
      | body hf _ => rw [listed] at hf; cases hf
  | some entry =>
      rw [hentry] at listed
      cases he with
      | constant hc hinit =>
          rw [listed] at hc
          obtain ⟨⟨symbol, init⟩, -, rfl⟩ := List.mem_map.mp hc
          obtain ⟨id, -, rfl⟩ := Option.map_eq_some_iff.mp hinit
          exact hexpr id
      | body hf hbody =>
          rw [listed] at hf
          obtain ⟨⟨symbol, body⟩, -, rfl⟩ := List.mem_map.mp hf
          rw [exprsAll_eq_flatMap, List.mem_flatMap] at hbody
          obtain ⟨st, hst, hmem⟩ := hbody
          obtain ⟨id, -, rfl⟩ := List.mem_map.mp hst
          exact hstmt id e hmem

end Store
end ColorLowering
