import ColorLowering.Module.Text
import ColorLowering.Preamble

/-!
# Sessions

A session holds the text and the tables of the modules lowered so far, in whatever order they were
asked for. A module that fails leaves no trace.
-/
namespace ColorLowering

structure LoweredCode where
  header : String
  body : String
  entries : List EntryRoutine

structure Session where
  target : Target
  tables : Tables
  header : Text.Writer
  body : Text.Writer

namespace Session

def new (target : Target) : Session :=
  ⟨target, .empty, .empty, Text.Writer.empty.raw (Preamble.text target)⟩

/-- Both outputs go back to where they stood before a module that failed, and the tables with
them. -/
def lowerModule (p : Program) (m : ModuleId) : ExceptT Failure (StateM Session) Unit :=
  ExceptT.mk fun s =>
    match Emission.module (p.module m) ⟨p, s.target, m⟩ ⟨s.tables, s.header, s.body⟩ with
    | (.ok (), out) => (.ok (), ⟨s.target, out.tables, out.header, out.body⟩)
    | (.error e, out) =>
      (.error e, ⟨s.target, s.tables, out.header.rewind s.header.mark, out.body.rewind s.body.mark⟩)

/-- What a run for one module sees first. -/
def emissionState (s : Session) : EmissionState := ⟨s.tables, s.header, s.body⟩

/-- A module that is lowered is the run of its emission; one that fails is rewound. -/
theorem lowerModule_cases {p : Program} {m : ModuleId} {s s' : Session}
    {result : Except Failure Unit} (hrun : (lowerModule p m).run s = (result, s')) :
    (∃ out, result = .ok () ∧
      Emission.module (p.module m) ⟨p, s.target, m⟩ s.emissionState = (.ok (), out) ∧
      s' = ⟨s.target, out.tables, out.header, out.body⟩) ∨
    (∃ e out, result = .error e ∧
      Emission.module (p.module m) ⟨p, s.target, m⟩ s.emissionState = (.error e, out) ∧
      s' = ⟨s.target, s.tables, out.header.rewind s.header.mark, out.body.rewind s.body.mark⟩) := by
  change (match Emission.module (p.module m) ⟨p, s.target, m⟩ s.emissionState with
    | (.ok (), out) => (.ok (), ⟨s.target, out.tables, out.header, out.body⟩)
    | (.error e, out) => (.error e,
        ⟨s.target, s.tables, out.header.rewind s.header.mark, out.body.rewind s.body.mark⟩)) =
    ((result, s') : Except Failure Unit × Session) at hrun
  cases hout : Emission.module (p.module m) ⟨p, s.target, m⟩ s.emissionState with
  | mk outcome out =>
      cases outcome with
      | ok u =>
          rw [hout] at hrun
          obtain ⟨rfl, rfl⟩ := Prod.mk.inj hrun
          exact .inl ⟨out, rfl, rfl, rfl⟩
      | error e =>
          rw [hout] at hrun
          obtain ⟨rfl, rfl⟩ := Prod.mk.inj hrun
          exact .inr ⟨e, out, rfl, rfl, rfl⟩

/-- All modules in order, up to the first that fails. -/
def lowerAll (p : Program) : ExceptT Failure (StateM Session) Unit :=
  p.moduleIds.forM (lowerModule p)

def code (s : Session) : LoweredCode := ⟨s.header.text, s.body.text, s.tables.entries⟩

end Session

def lower (p : Program) (target : Target) : Except Failure LoweredCode :=
  match (Session.lowerAll p).run (Session.new target) with
  | (.ok (), s) => .ok s.code
  | (.error e, _) => .error e

end ColorLowering
