import ColorLowering.Proofs.Emission.Signatures
import ColorLowering.Proofs.Statements.Emitted

/-!
# The assignments of a module in its text

Every assignment in the body of a function is written on a line of its own. The lines stand in the
order of the assignments, whatever stands between them.
-/
namespace ColorLowering

namespace Stmt

mutual
def assignments : Stmt → List (Expr × Expr)
  | .assign target value => [(target, value)]
  | .branch _ thenBody elseBody => assignmentsAll thenBody ++ assignmentsAll elseBody
  | .loop _ body => assignmentsAll body
  | _ => []

def assignmentsAll : List Stmt → List (Expr × Expr)
  | [] => []
  | s :: rest => s.assignments ++ assignmentsAll rest
end

end Stmt

namespace Text.Writer

/-- The later writer has written the lines, in this order, but maybe others too. -/
def Adds (w later : Writer) (lines : List String) : Prop :=
  ∃ pieces, later.pieces = w.pieces ++ pieces ∧ lines.Sublist pieces.toList

theorem Extends.adds {w later : Writer} (h : w.Extends later) : w.Adds later [] := by
  obtain ⟨pieces, hpieces⟩ := h
  exact ⟨pieces, hpieces, List.nil_sublist _⟩

theorem Adds.trans {u v w : Writer} {first second : List String} (huv : u.Adds v first)
    (hvw : v.Adds w second) : u.Adds w (first ++ second) := by
  obtain ⟨early, hearly, hfirst⟩ := huv
  obtain ⟨late, hlate, hsecond⟩ := hvw
  refine ⟨early ++ late, by rw [hlate, hearly, Array.append_assoc], ?_⟩
  rw [Array.toList_append]
  exact hfirst.append hsecond

theorem Adds.before {u v w : Writer} {lines : List String} (huv : u.Extends v)
    (hvw : v.Adds w lines) : u.Adds w lines := huv.adds.trans hvw

theorem Adds.after {u v w : Writer} {lines : List String} (huv : u.Adds v lines)
    (hvw : v.Extends w) : u.Adds w lines := by
  have all := huv.trans hvw.adds
  rwa [List.append_nil] at all

theorem adds_line (w : Writer) (s : String) : w.Adds (w.line s) [indentLines w.level s] :=
  ⟨#[indentLines w.level s], by simp [line, raw], by simp⟩

end Text.Writer

/-- The line is the assignment at some margin, and when its target and its value are rendered this
much is known. -/
def ModuleContext.WritesAssignment (ctx : ModuleContext) (known : Classification)
    (a : Expr × Expr) (line : String) : Prop :=
  ∃ level left right texts texts' texts'',
    a.1.render (ctx.scope known false) texts = (.ok left, texts') ∧
      a.2.renderAs a.1.ty (ctx.scope known false) texts' = (.ok right, texts'') ∧
      line = Text.Writer.indentLines level (assignment left right)

namespace Emission

open Text.Writer

variable {ctx : ModuleContext} {s t : EmissionState}

def WritesAssignments (ctx : ModuleContext) (as : List (Expr × Expr)) (s t : EmissionState) :
    Prop :=
  t.tables.known = s.tables.known ∧
    ∃ lines, List.Forall₂ (ctx.WritesAssignment s.tables.known) as lines ∧ s.body.Adds t.body lines

namespace WritesAssignments

variable {u : EmissionState} {as bs : List (Expr × Expr)}

theorem append (hst : WritesAssignments ctx as s t) (htu : WritesAssignments ctx bs t u) :
    WritesAssignments ctx (as ++ bs) s u := by
  obtain ⟨hknown, first, hfirst, hearly⟩ := hst
  obtain ⟨hknown', second, hsecond, hlate⟩ := htu
  rw [hknown] at hsecond hknown'
  exact ⟨hknown', first ++ second, List.rel_append hfirst hsecond, hearly.trans hlate⟩

theorem nothing (hknown : t.tables.known = s.tables.known) (hbody : s.body.Extends t.body) :
    WritesAssignments ctx [] s t :=
  ⟨hknown, [], .nil, hbody.adds⟩

theorem line (ctx : ModuleContext) (s : EmissionState) (texts : DefaultTexts) (text : String) :
    WritesAssignments ctx [] s ((s.withTexts texts).withBody (s.body.line text)) :=
  nothing rfl (s.body.extends_line text)

theorem braced (h : WritesAssignments ctx as (s.withBody s.body.openBrace) t) :
    WritesAssignments ctx as s (t.withBody (t.body.closeBraceWith "")) := by
  obtain ⟨hknown, lines, hlines, hadds⟩ := h
  exact ⟨hknown, lines, hlines,
    .after (.before s.body.extends_openBrace hadds) (t.body.extends_closeBraceWith "")⟩

theorem indented (h : WritesAssignments ctx as (s.withBody s.body.indent) t) :
    WritesAssignments ctx as s (t.withBody t.body.dedent) := h

end WritesAssignments

theorem assignments_of_branch {ss : List Stmt} {content : Emission Unit} {as : List (Expr × Expr)}
    (hcontent : ∀ s t, content ctx s = (.ok (), t) → WritesAssignments ctx as s t)
    (hrun : branch ss content ctx s = (.ok (), t)) : WritesAssignments ctx as s t := by
  rw [branch_eq] at hrun
  split at hrun
  · obtain ⟨u, hu, rfl⟩ := indented_ok hrun
    exact (hcontent _ _ hu).indented
  · obtain ⟨u, hu, rfl⟩ := braced_ok hrun
    exact (hcontent _ _ hu).braced

theorem assignments_of_other {returnTy : Ty} {keyword : String} {st : Stmt}
    (hrun : statement returnTy keyword st ctx s = (.ok (), t)) : WritesAssignments ctx [] s t := by
  have within {Done Failed : EmissionState → EmissionState → Prop}
      (F : StatementFrame Done Failed) : WithinAt Done Failed ctx (statement returnTy keyword st) :=
    (F.property ctx).toEmitterProperty.statement returnTy keyword st
      (fun d _ => ⟨(ModuleContext.Alike.refl ctx).declares rfl, fun _ _ => trivial⟩)
      fun _ _ => trivial
  have known := (within known_frame.toStatementFrame).done hrun
  exact .nothing known ((within growth_frame.toFunctionFrame.toStatementFrame).done hrun).1.2

mutual
theorem assignments_of_statement (returnTy : Ty) : (keyword : String) → (st : Stmt) → ∀ s t,
    statement returnTy keyword st ctx s = (.ok (), t) → WritesAssignments ctx st.assignments s t
  | keyword, .assign target value, s, t, hrun => by
      rw [statement] at hrun
      obtain ⟨left, u, hu, hrun⟩ := bind_eq_ok.mp hrun
      obtain ⟨texts, hleft, rfl⟩ := render_ok hu
      obtain ⟨right, v, hv, hline⟩ := bind_eq_ok.mp hrun
      obtain ⟨texts', hright, rfl⟩ := render_ok hv
      cases hline
      rw [Stmt.assignments]
      exact ⟨rfl, [_], .cons ⟨_, left, right, _, texts, texts', hleft, hright, rfl⟩ .nil,
        s.body.adds_line (assignment left right)⟩
  | keyword, .branch cond thenBody elseBody, s, t, hrun => by
      rw [statement] at hrun
      obtain ⟨c, u, hu, hrun⟩ := bind_eq_ok.mp hrun
      obtain ⟨texts, hcond, rfl⟩ := render_ok hu
      obtain ⟨_, v, hhead, hrun⟩ := bind_eq_ok.mp hrun
      cases hhead
      obtain ⟨_, w, hthen, helse⟩ := bind_eq_ok.mp hrun
      have head := WritesAssignments.line ctx s texts (keyword ++ " " ++ parenthesized c)
      have thens := assignments_of_branch
        (assignments_of_statements returnTy "if" thenBody) hthen
      rw [Stmt.assignments]
      refine (head.append thens).append ?_
      split at helse
      · rename_i hempty
        cases helse
        rw [List.isEmpty_iff.mp hempty]
        exact .nothing rfl (.refl _)
      · split at helse
        · exact assignments_of_statements returnTy "else if" elseBody _ _ helse
        · obtain ⟨_, x, hword, hbranch⟩ := bind_eq_ok.mp helse
          cases hword
          have word := WritesAssignments.line ctx w w.tables.defaultTexts "else"
          exact word.append (assignments_of_branch
            (assignments_of_statements returnTy "if" elseBody) hbranch)
  | keyword, .loop cond body, s, t, hrun => by
      rw [statement] at hrun
      obtain ⟨c, u, hu, hrun⟩ := bind_eq_ok.mp hrun
      obtain ⟨texts, hcond, rfl⟩ := render_ok hu
      obtain ⟨_, v, hhead, hrun⟩ := bind_eq_ok.mp hrun
      cases hhead
      obtain ⟨w, hbody, rfl⟩ := braced_ok hrun
      have head := WritesAssignments.line ctx s texts ("while " ++ parenthesized c)
      rw [Stmt.assignments]
      exact head.append (assignments_of_statements returnTy "if" body _ _ hbody).braced
  | _, .declare .., _, _, hrun | _, .eval _, _, _, hrun | _, .ret _, _, _, hrun
  | _, .unresolved, _, _, hrun => by
      rw [Stmt.assignments]
      · exact assignments_of_other hrun
      all_goals nofun

theorem assignments_of_statements (returnTy : Ty) : (keyword : String) → (ss : List Stmt) →
    ∀ s t, statements returnTy keyword ss ctx s = (.ok (), t) →
      WritesAssignments ctx (Stmt.assignmentsAll ss) s t
  | keyword, [], s, t, hrun => by
      rw [statements] at hrun
      cases hrun
      exact .nothing rfl (.refl _)
  | keyword, st :: rest, s, t, hrun => by
      rw [statements] at hrun
      obtain ⟨_, u, hfirst, hrest⟩ := bind_eq_ok.mp hrun
      rw [Stmt.assignmentsAll]
      exact (assignments_of_statement returnTy keyword st s u hfirst).append
        (assignments_of_statements returnTy keyword rest u t hrest)
end

theorem assignments_of_definition {head : String} {ret : Ty} {body : List Stmt}
    (hrun : functionDefinition head ret body ctx s = (.ok (), t)) :
    WritesAssignments ctx (Stmt.assignmentsAll body) s t := by
  obtain ⟨_, u, hhead, hrest⟩ := bind_eq_ok.mp hrun
  cases hhead
  obtain ⟨_, v, hbody, hblank⟩ := bind_eq_ok.mp hrest
  cases hblank
  obtain ⟨w, hstatements, rfl⟩ := braced_ok hbody
  obtain ⟨hknown, lines, hlines, hadds⟩ :=
    (assignments_of_statements ret "if" body _ _ hstatements).braced
  exact ⟨hknown, lines, hlines, .after (.before (s.body.extends_line head) hadds)
    ((w.body.closeBraceWith "").extends_raw "\n")⟩

theorem assignments_of_function {f : Function} (hrun : function f ctx s = (.ok (), t)) :
    WritesAssignments ctx (Stmt.assignmentsAll f.body) s t := by
  have same : (published ctx f s).tables.known = s.tables.known ∧
      (published ctx f s).body = s.body := by
    unfold published
    split <;> exact ⟨rfl, rfl⟩
  have written := assignments_of_definition (function_runs hrun).2
  rwa [WritesAssignments, same.1, same.2] at written

theorem assignments_of_functions {fs : List Function}
    (hrun : fs.forM function ctx s = (.ok (), t)) :
    WritesAssignments ctx (fs.flatMap fun f => Stmt.assignmentsAll f.body) s t := by
  rw [List.forM_eq_forM] at hrun
  induction fs generalizing s with
  | nil =>
      cases hrun
      exact .nothing rfl (.refl _)
  | cons f rest ih =>
      rw [List.forM_cons] at hrun
      obtain ⟨_, u, hfirst, hrest⟩ := bind_eq_ok.mp hrun
      rw [List.flatMap_cons]
      exact (assignments_of_function hfirst).append (ih hrest)

/-- A module writes the assignments of its functions, when all that it classifies is known. -/
theorem assignments_of_module {m : Module} (hrun : module m ctx s = (.ok (), t)) :
    ∃ lines, List.Forall₂ (ctx.WritesAssignment t.tables.known)
      (m.functions.flatMap fun f => Stmt.assignmentsAll f.body) lines ∧
      s.body.Adds t.body lines := by
  obtain ⟨surveyed, opened, start, lowered, declared, closed, last, run, rfl⟩ :=
    moduleRun_of_ok hrun
  obtain ⟨hknown, lines, hlines, hadds⟩ := assignments_of_functions run.functions
  refine ⟨lines, ?_, ?_⟩
  · change List.Forall₂ (ctx.WritesAssignment last.tables.known) _ lines
    rwa [hknown]
  · have early := ((run.grew_opened.1.trans run.grew_start.1).trans run.grew_closed.1).2
    rw [run.body_surveyed] at early
    exact .after (.before early hadds) (Text.Writer.extends_line _ _)

end Emission
end ColorLowering
