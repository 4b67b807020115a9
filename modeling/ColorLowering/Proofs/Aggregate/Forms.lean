import ColorLowering.Initializer
import ColorLowering.Proofs.Aggregate.Counting
import ColorLowering.Proofs.Aggregate.Filling
import ColorLowering.Proofs.Aggregate.Mirror

/-!
# The three forms of an aggregate

Constructor arguments, an initializer list and the statements that fill an object in give an object
the same first value: the texts of the leaves, each converted to the type at its place, in order.
-/
namespace ColorLowering

namespace Expr

variable {scope : Scope} {texts texts' : DefaultTexts}

theorem length_of_renderAll {tys : List Ty} {es : List Expr} {ts : List String}
    (hlength : es.length = tys.length)
    (hrun : renderAll tys es scope texts = (.ok ts, texts')) : ts.length = tys.length := by
  induction tys generalizing es texts ts with
  | nil =>
      obtain rfl : es = [] := List.eq_nil_of_length_eq_zero hlength
      simp only [renderAll] at hrun
      cases hrun
      rfl
  | cons ty rest ih =>
      cases es with
      | nil => cases hlength
      | cons e others =>
          rw [renderAll] at hrun
          obtain ⟨text, texts₁, -, hrun⟩ := Rendering.bind_eq_ok.mp hrun
          obtain ⟨first, texts₂, -, hrun⟩ := Rendering.bind_eq_ok.mp hrun
          obtain ⟨tail, texts₃, htail, hdone⟩ := Rendering.bind_eq_ok.mp hrun
          cases hdone
          rw [List.length_cons, List.length_cons, ih (by simpa using hlength) htail]

end Expr

namespace Rendering

variable {scope : Scope} {texts texts' : DefaultTexts}

theorem aggregate_eq_ok {α : Type} {ty : Ty} {leaves : List Expr} {ts rest : List String}
    {layout : Target → Leaves α} {a : α} (object : String)
    (hcount : ty.leafCount? = some leaves.length)
    (hleaves : Expr.renderAll ty.leaves leaves scope texts = (.ok ts, texts'))
    (hlayout : (layout scope.target).run ts = some (a, rest)) :
    aggregate ty object leaves layout scope texts = (.ok a, texts') := by
  refine bind_eq_ok.mpr ⟨ts, texts', ?_, bind_eq_ok.mpr ⟨scope, texts', rfl, ?_⟩⟩
  · refine bind_eq_ok.mpr ⟨(), texts, ?_, hleaves⟩
    rw [checkLeaves_of_leafCount? hcount, if_pos rfl]
    rfl
  · rw [layOut, hlayout]
    rfl

/-- The forms agree for every type and as many leaves as are counted for it: the arguments are the
texts of the leaves, the list mirrors the type over them, and the statements run on an object of the
declared type and leave it holding them, with every container at its size. -/
theorem aggregate_forms_agree {ty : Ty} (hty : ty.DistinctMembers) {leaves : List Expr}
    (hcount : ty.leafCount? = some leaves.length) {ts : List String}
    (hleaves : Expr.renderAll ty.leaves leaves scope texts = (.ok ts, texts')) (object : String) :
    aggregate ty object leaves (fun _ => Leaves.flat ty) scope texts = (.ok ts, texts') ∧
    (aggregate ty object leaves (·.braces ty) scope texts =
        (.ok (scope.target.mirror ty ts).layout, texts') ∧
      squeezed (scope.target.mirror ty ts).layout.toList =
        squeezed (scope.target.mirror ty ts).text.toList ∧
      (scope.target.mirror ty ts).leaves = ts) ∧
    (scope.target.lowered ty false).spell = scope.target.spell ty false ∧
    ∃ fills whole,
      aggregate ty object leaves (·.fillStatements ty object) scope texts =
        (.ok (fills.map Fill.text), texts') ∧
      (scope.target.lowered ty false).fresh.run object fills = some whole ∧
      whole.scalars = ts.map some ∧ whole.erased = scope.target.sized ty false := by
  have hts : ts.length = ty.leafCount := by
    rw [← ty.length_leaves]
    exact Expr.length_of_renderAll
      (by rw [ty.length_leaves, Ty.leafCount_of_leafCount? hcount]) hleaves
  have flat := Leaves.run_flat hts []
  have list := scope.target.run_braces ty ts [] hts
  obtain ⟨fills, whole, hfills, hrun, hscalars, herased⟩ :=
    scope.target.fills_filled ty hty ⟨object, []⟩ ⟨false, false⟩ rfl ts [] hts
  rw [List.append_nil] at flat list hfills
  have statements : (scope.target.fillStatements ty object).run ts =
      some (fills.map Fill.text, []) := by simp [Target.fillStatements, hfills]
  refine ⟨aggregate_eq_ok object hcount hleaves flat, ⟨?_, InitTree.squeezed_layout _,
    scope.target.leaves_mirror ty ts hts⟩, scope.target.spell_lowered ty false, fills, whole, ?_,
    ?_, hscalars, herased⟩
  · exact aggregate_eq_ok object hcount hleaves list
  · exact aggregate_eq_ok object hcount hleaves statements
  · exact hrun _ rfl

def markedPoint : Ty :=
  .struct "MarkedPoint" [("at", .array (.scalar .int) 2), ("marks", .array (.scalar .bool) 1)]

def markedLeaves : List Expr :=
  [.literal (.scalar .int) (.scalar (.int 1)), .literal (.scalar .int) (.scalar (.int 2)),
    .literal (.scalar .bool) (.scalar (.bool true))]

def legacyScope : Scope := ⟨⟨#[], #[]⟩, ⟨.legacy, .single, "Imath"⟩, ⟨0⟩, .empty, false⟩

theorem marked_point_filled_in : ∃ fills whole,
    aggregate markedPoint "p" markedLeaves (·.fillStatements markedPoint "p") legacyScope .empty =
      (.ok (fills.map Fill.text), .empty) ∧
    (legacyScope.target.lowered markedPoint false).fresh.run "p" fills = some whole ∧
    whole.scalars = [some "1", some "2", some "true"] := by
  have distinct : markedPoint.DistinctMembers := by
    simp [markedPoint, Ty.DistinctMembers, Ty.AllDistinct]
  have rendered : Expr.renderAll markedPoint.leaves markedLeaves legacyScope .empty =
      (.ok ["1", "2", "true"], .empty) := rfl
  obtain ⟨-, -, -, fills, whole, hfills, hrun, hscalars, -⟩ :=
    aggregate_forms_agree distinct rfl rendered "p"
  exact ⟨fills, whole, hfills, hrun, hscalars⟩

end Rendering
end ColorLowering
