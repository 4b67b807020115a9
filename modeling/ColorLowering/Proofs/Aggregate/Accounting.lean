import ColorLowering.Proofs.Aggregate.Counting
import ColorLowering.Proofs.Aggregate.Forms
import ColorLowering.Proofs.Calls.Arguments

/-!
# Every leaf is taken once

The leaves of an aggregate are counted before the first of them is rendered. Each layout of a type
takes as many texts as the type has leaves, at every part of the type, and puts them in order; so an
aggregate that passes the count is laid out in full, and a layout never runs out of texts.
-/
namespace ColorLowering

/-- The text is that of an initializer list over the texts. -/
def ListsOver (text : String) (ts : List String) : Prop :=
  ∃ tree : InitTree, tree.layout = text ∧ tree.leaves = ts

def ListsAllOver (items ts : List String) : Prop :=
  ∃ trees, InitTree.layouts trees = items ∧ InitTree.itemLeaves trees = ts

theorem ListsAllOver.list {items ts : List String} (h : ListsAllOver items ts) :
    ListsOver (bracedList items) ts := by
  obtain ⟨trees, rfl, rfl⟩ := h
  exact ⟨.list trees, by rw [InitTree.layout], by rw [InitTree.leaves]⟩

theorem ListsAllOver.cons {item : String} {items first rest : List String}
    (h : ListsOver item first) (hrest : ListsAllOver items rest) :
    ListsAllOver (item :: items) (first ++ rest) := by
  obtain ⟨tree, rfl, rfl⟩ := h
  obtain ⟨trees, rfl, rfl⟩ := hrest
  exact ⟨tree :: trees, by rw [InitTree.layouts], by rw [InitTree.itemLeaves]⟩

theorem listsAllOver_of_forall₂ {items : List String} {parts : List (List String)}
    (h : List.Forall₂ ListsOver items parts) : ListsAllOver items parts.flatten := by
  induction h with
  | nil => exact ⟨[], rfl, rfl⟩
  | cons hfirst _ ih => exact .cons hfirst ih

def Fill.values : Fill → List String
  | .resize .. => []
  | .assign _ value => [value]
  | .construct _ _ args => args

def FillsOver (fs : List Fill) (ts : List String) : Prop := fs.flatMap Fill.values = ts

namespace FillsOver

theorem append {fs gs : List Fill} {first rest : List String} (h : FillsOver fs first)
    (hrest : FillsOver gs rest) : FillsOver (fs ++ gs) (first ++ rest) := by
  rw [FillsOver, List.flatMap_append, h, hrest]

theorem flatten {fss : List (List Fill)} {parts : List (List String)}
    (h : List.Forall₂ FillsOver fss parts) : FillsOver fss.flatten parts.flatten := by
  induction h with
  | nil => rfl
  | cons hfirst _ ih => exact hfirst.append ih

end FillsOver

namespace Target

open Leaves

variable (t : Target)

mutual
theorem consumes_braces : (ty : Ty) → Consumes (t.braces ty) ty.leafCount ListsOver
  | .void | .scalar _ | .string => by
      simp only [braces, Ty.leafCount]
      refine Consumes.one.imp ?_
      rintro text _ rfl
      exact ⟨.leaf text, by rw [InitTree.layout], by rw [InitTree.leaves]⟩
  | .array elem size => by
      have list : Consumes (do return bracedList (← repeated (fun _ => t.braces elem) 0 size))
          (Ty.array elem size).leafCount ListsOver := by
        refine ((Consumes.repeated (fun _ => consumes_braces elem) 0 size).map bracedList).imp ?_
        rintro _ _ ⟨items, rfl, parts, hparts, rfl⟩
        exact (listsAllOver_of_forall₂ hparts).list
      rw [braces]
      cases t.arrayForm elem size true with
      | native spelling shape =>
          refine ((consumes_flat (.array elem size)).map
            fun args => spelling ++ parenthesized (commaSeparated args)).imp ?_
          rintro _ _ ⟨args, rfl, rfl⟩
          exact ⟨.call spelling args, by rw [InitTree.layout], by rw [InitTree.leaves]⟩
      | raw element size => exact list
      | container elem => exact list
  | .struct name members => by
      rw [braces, Ty.leafCount]
      refine ((consumes_bracesMembers members).map bracedList).imp ?_
      rintro _ _ ⟨items, rfl, hitems⟩
      exact hitems.list

theorem consumes_bracesMembers : (members : List (String × Ty)) →
    Consumes (t.bracesMembers members) (Ty.leafCountMembers members) ListsAllOver
  | [] => by
      rw [bracesMembers, Ty.leafCountMembers]
      refine (Consumes.nothing []).imp ?_
      rintro _ _ ⟨rfl, rfl⟩
      exact ⟨[], rfl, rfl⟩
  | (name, ty) :: rest => by
      rw [bracesMembers, Ty.leafCountMembers]
      refine ((consumes_braces ty).both List.cons (consumes_bracesMembers rest)).imp ?_
      rintro _ _ ⟨item, items, first, others, rfl, rfl, hitem, hitems⟩
      exact .cons hitem hitems
end

mutual
theorem consumes_fills : (ty : Ty) → ∀ path position,
    Consumes (t.fills ty path position) ty.leafCount FillsOver
  | .void, path, position | .scalar _, path, position | .string, path, position => by
      simp only [fills, Ty.leafCount]
      refine (Consumes.one.map fun value => [Fill.assign path value]).imp ?_
      rintro _ _ ⟨value, rfl, rfl⟩
      rfl
  | .array elem size, path, position => by
      have elements (child : Position) : Consumes (t.elementFills elem size path child)
          (Ty.array elem size).leafCount FillsOver := by
        refine ((Consumes.repeated (fun i => consumes_fills elem (path.index i) child) 0 size).map
          List.flatten).imp ?_
        rintro _ _ ⟨fss, rfl, parts, hparts, rfl⟩
        exact .flatten hparts
      rw [fills_array]
      cases t.arrayForm elem size position.inContainer with
      | native spelling shape =>
          cases shape with
          | vector width =>
              dsimp only
              split
              · exact elements _
              · refine ((consumes_flat (.array elem size)).map
                  fun args => [Fill.construct path spelling args]).imp ?_
                rintro _ _ ⟨args, rfl, rfl⟩
                exact List.append_nil args
          | matrix order => exact elements _
      | raw element size => exact elements _
      | container elem =>
          refine ((elements ⟨false, true⟩).map (Fill.resize path size :: ·)).imp ?_
          rintro _ _ ⟨fs, rfl, hfs⟩
          exact hfs
  | .struct name members, path, position => by
      rw [fills, Ty.leafCount]
      exact consumes_fillsMembers members path

theorem consumes_fillsMembers : (members : List (String × Ty)) → ∀ path,
    Consumes (t.fillsMembers members path) (Ty.leafCountMembers members) FillsOver
  | [], path => by
      rw [fillsMembers, Ty.leafCountMembers]
      refine (Consumes.nothing []).imp ?_
      rintro _ _ ⟨rfl, rfl⟩
      rfl
  | (name, ty) :: rest, path => by
      rw [fillsMembers, Ty.leafCountMembers]
      refine ((consumes_fills ty (path.member name) ⟨false, false⟩).both (· ++ ·)
        (consumes_fillsMembers rest path)).imp ?_
      rintro _ _ ⟨fs, gs, first, others, rfl, rfl, hfs, hgs⟩
      exact hfs.append hgs
end

/-- The lines are those of statements that write the texts. -/
def StatesOver (lines ts : List String) : Prop :=
  ∃ fs, fs.map Fill.text = lines ∧ FillsOver fs ts

theorem consumes_fillStatements (ty : Ty) (object : String) :
    Consumes (t.fillStatements ty object) ty.leafCount StatesOver :=
  (t.consumes_fills ty ⟨object, []⟩ ⟨false, false⟩).map (List.map Fill.text)

end Target

namespace Rendering

open Leaves

variable {α : Type} {scope : Scope} {texts : DefaultTexts}

def ofLeaves (ty : Ty) (leaves : List Expr) : List (Rendering String) :=
  List.zipWith (fun wanted (leaf : Expr) => leaf.renderAs wanted) ty.leaves leaves

theorem renderAll_eq_sequence (tys : List Ty) (es : List Expr) : Expr.renderAll tys es =
    (List.zipWith (fun wanted (e : Expr) => e.renderAs wanted) tys es).mapM id := by
  induction tys generalizing es with
  | nil => simp [Expr.renderAll]
  | cons ty rest ih =>
      cases es with
      | nil => simp [Expr.renderAll]
      | cons e others =>
          rw [Expr.renderAll, List.zipWith_cons_cons, List.mapM_cons, ← ih]
          simp only [Expr.renderAs, id, bind_assoc]

/-- The leaves are counted first, in machine words. If their number is not counted, or is another,
no leaf is rendered. Otherwise every leaf is rendered once, in order, and the layout takes all their
texts: nothing but a leaf can fail then. -/
structure AccountsForLeaves (ty : Ty) (object : String) (layout : Target → Leaves α)
    (Over : α → List String → Prop) (scope : Scope) : Prop where
  consumes : Consumes (layout scope.target) ty.leafCount Over
  uncounted : ty.leafCount? = none → ∀ leaves texts,
    aggregate ty object leaves layout scope texts = (.error .unresolved, texts)
  mismatch : ∀ needed, ty.leafCount? = some needed → ∀ leaves texts, leaves.length ≠ needed →
    aggregate ty object leaves layout scope texts =
      (.error (.leafMismatch object leaves.length needed), texts)
  outcome : ∀ leaves texts, ty.leafCount? = some leaves.length →
    (ofLeaves ty leaves).length = leaves.length ∧
    ((∃ ts last a, Runs scope texts (ofLeaves ty leaves) ts last ∧
        (layout scope.target).run ts = some (a, []) ∧ Over a ts ∧
        aggregate ty object leaves layout scope texts = (.ok a, last)) ∨
      ∃ before r after ts middle e last, ofLeaves ty leaves = before ++ r :: after ∧
        Runs scope texts before ts middle ∧ r scope middle = (.error e, last) ∧
        aggregate ty object leaves layout scope texts = (.error e, last))
  neverShort : ∀ ts texts, ts.length = ty.leafCount →
    ∃ a, layOut (layout scope.target) ts scope texts = (.ok a, texts)

theorem layOut_of_run {layout : Leaves α} {ts rest : List String} {a : α}
    (h : layout.run ts = some (a, rest)) : layOut layout ts scope texts = (.ok a, texts) := by
  rw [layOut, h]
  rfl

theorem accountsForLeaves_of_consumes {ty : Ty} {layout : Target → Leaves α}
    {Over : α → List String → Prop} (h : Consumes (layout scope.target) ty.leafCount Over)
    (object : String) : AccountsForLeaves ty object layout Over scope where
  consumes := h
  uncounted hnone leaves texts := by
    simp only [aggregate, Expr.leafTexts, bind_assoc, checkLeaves_of_leafCount?_none hnone]
    rfl
  mismatch needed hneeded leaves texts hcount := by
    simp only [aggregate, Expr.leafTexts, bind_assoc, checkLeaves_of_leafCount? hneeded,
      if_neg hcount]
    rfl
  outcome leaves texts hcount := by
    have hexact := Ty.leafCount_of_leafCount? hcount
    have every : (ofLeaves ty leaves).length = leaves.length := by
      simp [ofLeaves, ty.length_leaves, hexact]
    have counted : aggregate ty object leaves layout scope texts =
        ((ofLeaves ty leaves).mapM id >>= layOut (layout scope.target)) scope texts := by
      rw [ofLeaves, ← renderAll_eq_sequence]
      simp only [aggregate, Expr.leafTexts, bind_assoc, checkLeaves_of_leafCount? hcount]
      rfl
    refine ⟨every, ?_⟩
    rw [counted, bind_apply]
    obtain ⟨ts, last, hruns, hall⟩ | ⟨before, r, after, ts, middle, e, last, hsplit, hruns, hfails,
      hall⟩ := sequence_cases (ofLeaves ty leaves) scope texts
    · obtain ⟨a, hrun, ha⟩ := h.exact ts [] (hruns.length.trans (every.trans hexact.symm))
      rw [List.append_nil] at hrun
      refine .inl ⟨ts, last, a, hruns, hrun, ha, ?_⟩
      rw [hall]
      exact layOut_of_run hrun
    · rw [hall]
      exact .inr ⟨before, r, after, ts, middle, e, last, hsplit, hruns, hfails, rfl⟩
  neverShort ts texts hts := by
    obtain ⟨a, hrun, -⟩ := h.exact ts [] hts
    rw [List.append_nil] at hrun
    exact ⟨a, layOut_of_run hrun⟩

/-- Leaf accounting, for every type however it nests. The number of leaves is known just where
every part's leaves can be counted in a machine word. Then a wrong number of leaves is reported
against the object before any leaf is rendered; the right number is rendered leaf by leaf, and the
arguments of a constructor, an initializer list and the statements for the object are each laid out
over exactly these texts in order. No layout runs out of texts, and neither does the layout of an
aggregate that is a value. -/
theorem aggregate_accounts_for_every_leaf (ty : Ty) (object : String) (scope : Scope) :
    (∀ count, ty.leafCount? = some count ↔ ty.Countable ∧ ty.leafCount = count) ∧
    AccountsForLeaves ty object (·.braces ty) ListsOver scope ∧
    AccountsForLeaves ty object (fun _ => Leaves.flat ty) Eq scope ∧
    AccountsForLeaves ty object (·.fillStatements ty object) Target.StatesOver scope ∧
    ∀ spelling isNative ts texts, ts.length = ty.leafCount →
      ∃ text, layOutTemporary ty spelling isNative ts scope texts = (.ok text, texts) := by
  have braces := scope.target.consumes_braces ty
  have flat := Leaves.consumes_flat ty
  have statements := scope.target.consumes_fillStatements ty object
  refine ⟨ty.leafCount?_eq_some, accountsForLeaves_of_consumes braces object,
    accountsForLeaves_of_consumes flat object, accountsForLeaves_of_consumes statements object, ?_⟩
  intro spelling isNative ts texts hts
  cases isNative with
  | true =>
      obtain ⟨args, hrun, -⟩ := flat.exact ts [] hts
      rw [List.append_nil] at hrun
      rw [layOutTemporary, if_pos rfl, bind_apply, layOut_of_run hrun]
      exact ⟨_, rfl⟩
  | false =>
      obtain ⟨list, hrun, -⟩ := braces.exact ts [] hts
      rw [List.append_nil] at hrun
      rw [layOutTemporary, if_neg Bool.false_ne_true, bind_apply]
      change ∃ text, (layOut (scope.target.braces ty) ts >>= _) scope texts = _
      rw [bind_apply, layOut_of_run hrun]
      exact ⟨_, rfl⟩

/-- One leaf more than a machine word counts. -/
def vastArray : Ty := .array (.array (.array (.scalar .int) 4194304) 4194304) 1048576

/-- That an array of so many elements is given no leaf is not reported. -/
theorem vast_array_unreported : vastArray.leafCount = Ty.wordSize ∧
    (aggregate vastArray "x" [] (·.braces vastArray) legacyScope .empty).1 = .error .unresolved ∧
    (aggregate vastArray "x" [] (·.braces vastArray) legacyScope .empty).1 ≠
      .error (.leafMismatch "x" 0 vastArray.leafCount) := by
  have uncounted : vastArray.leafCount? = none := by decide
  have stops : aggregate vastArray "x" [] (·.braces vastArray) legacyScope .empty =
      (.error .unresolved, .empty) := by
    simp only [aggregate, Expr.leafTexts, bind_assoc, checkLeaves_of_leafCount?_none uncounted]
    rfl
  rw [stops]
  exact ⟨by decide, rfl, nofun⟩

end Rendering
end ColorLowering
