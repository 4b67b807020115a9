import ColorLowering.Proofs.Constants.Texts
import ColorLowering.Proofs.Session.Reached

/-!
# In the middle of a module

An expression may be rendered between two modules or anywhere within one. What every module keeps
of the texts in the tables holds of them then too, as long as the renderings before kept it.
-/
namespace ColorLowering
namespace Session

/-- The states in which the module `m` may have an expression to render: those that a history of the
session leaves, and those that the survey and the lowering of constants, the rendering of
expressions that `Admits` admits and the writing of texts lead to from there. -/
inductive Midway (p : Program) (target : Target) (m : ModuleId) (Admits : Expr → Prop) :
    EmissionState → Prop
  | start (steps : List Step) : Midway p target m Admits ((new target).after p steps).emissionState
  | surveyed {c : Constant} {s t : EmissionState} : Midway p target m Admits s →
      c ∈ (p.module m).constants →
      Emission.surveyConstant c ⟨p, target, m⟩ s = (.ok (), t) → Midway p target m Admits t
  | lowered {c : Constant} {out : Option LoweredConstant} {s t : EmissionState} :
      Midway p target m Admits s → c ∈ (p.module m).constants →
      Emission.constant c ⟨p, target, m⟩ s = (.ok out, t) → Midway p target m Admits t
  | rendered {portable : Bool} {e : Expr} {result : Except Failure String} {s t : EmissionState} :
      Midway p target m Admits s → Admits e →
      Emission.rendering portable e.render ⟨p, target, m⟩ s = (result, t) →
      Midway p target m Admits t
  | wrote {s t : EmissionState} : Midway p target m Admits s →
      t.tables.known = s.tables.known → t.tables.defaultTexts = s.tables.defaultTexts →
      Midway p target m Admits t

section
variable {p : Program} {target : Target} {I : Tables → Prop} {Good : String → Prop}
  (invariant : ∀ m, Emission.TextInvariant I Good ⟨p, target, m⟩) (hempty : I .empty)
include invariant hempty

theorem Reached.textInvariant {done : List ModuleId} {s : Session} (hs : Reached p target done s) :
    I s.tables :=
  hs.tables_of (P := fun _ tables => I tables) hempty fun {_ m u v} before hrun =>
    (invariant m).module u before () v hrun

theorem Midway.textInvariant {m : ModuleId} {Admits : Expr → Prop}
    (hadmits : ∀ {portable : Bool} {e : Expr} {result : Except Failure String}
      {s t : EmissionState}, Admits e → I s.tables →
      Emission.rendering portable e.render ⟨p, target, m⟩ s = (result, t) → I t.tables)
    {s : EmissionState} (hs : Midway p target m Admits s) : I s.tables := by
  induction hs with
  | start steps =>
      have start : Reached p target [] (new target) := .new
      exact (start.after steps).textInvariant invariant hempty
  | surveyed _ hc hrun ih =>
      exact (invariant m).surveys hc (Emission.surveyConstant_ok hrun) ih
  | lowered _ hc hrun ih => exact (invariant m).constant hc _ ih _ _ hrun
  | rendered _ he hrun ih => exact hadmits he ih hrun
  | wrote _ hknown htexts ih => exact (invariant m).congr ih (by rw [hknown]) (by rw [hknown]) htexts

end
end Session
end ColorLowering
