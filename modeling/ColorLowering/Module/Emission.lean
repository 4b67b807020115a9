import ColorLowering.Expr.Rendering
import ColorLowering.Text.Writer

/-!
# Emission

Lowering a module writes to the body and to the public declarations and extends the tables that all
modules share. The expression renderer sees the classification of the symbols as it stands and
can change nothing but the texts of defaults.
-/
namespace ColorLowering

/-- A function that callers outside the program reach. -/
structure EntryRoutine where
  name : String
  qualifiedName : String
  symbol : SymbolId
  deriving DecidableEq

structure Tables where
  known : Classification
  defaultTexts : DefaultTexts
  entries : List EntryRoutine

def Tables.empty : Tables := ⟨.empty, .empty, []⟩

structure EmissionState where
  tables : Tables
  header : Text.Writer
  body : Text.Writer

structure ModuleContext where
  program : Program
  target : Target
  module : ModuleId

namespace ModuleContext

def namespaceText (ctx : ModuleContext) : String := ctx.program.namespaceOf ctx.module

def scope (ctx : ModuleContext) (known : Classification) (qualifyAll : Bool) : Scope :=
  ⟨ctx.program, ctx.target, ctx.module, known, qualifyAll⟩

end ModuleContext

abbrev Emission := ReaderT ModuleContext (ExceptT Failure (StateM EmissionState))

namespace Emission

theorem bind_apply {α β : Type} (x : Emission α) (f : α → Emission β) (ctx : ModuleContext)
    (s : EmissionState) :
    (x >>= f) ctx s = match x ctx s with
      | (.ok a, s') => f a ctx s'
      | (.error e, s') => (.error e, s') := by
  simp only [bind, ReaderT.bind, ExceptT.bind, ExceptT.mk, StateT.bind]
  rcases x ctx s with ⟨_ | _, _⟩ <;> rfl

/-- A run that ends went through both parts. -/
theorem bind_eq_ok {α β : Type} {x : Emission α} {f : α → Emission β} {ctx : ModuleContext}
    {s u : EmissionState} {b : β} :
    (x >>= f) ctx s = (.ok b, u) ↔ ∃ a t, x ctx s = (.ok a, t) ∧ f a ctx t = (.ok b, u) := by
  rw [bind_apply]
  constructor
  · intro h
    cases hx : x ctx s with
    | mk result t =>
        rw [hx] at h
        cases result with
        | error e => cases h
        | ok a => exact ⟨a, t, rfl, h⟩
  · rintro ⟨a, t, hx, hf⟩
    rw [hx]
    exact hf

@[simp] theorem pure_apply {α : Type} (a : α) (ctx : ModuleContext) (s : EmissionState) :
    (pure a : Emission α) ctx s = (.ok a, s) := rfl

@[simp] theorem throw_apply {α : Type} (e : Failure) (ctx : ModuleContext) (s : EmissionState) :
    (throw e : Emission α) ctx s = (.error e, s) := rfl

def known : Emission Classification := do return (← get).tables.known

def setKnown (known : Classification) : Emission Unit :=
  modify fun s => { s with tables := { s.tables with known } }

def addEntry (entry : EntryRoutine) : Emission Unit :=
  modify fun s => { s with tables := { s.tables with entries := s.tables.entries ++ [entry] } }

def writeBody (f : Text.Writer → Text.Writer) : Emission Unit :=
  modify fun s => { s with body := f s.body }

def writeHeader (f : Text.Writer → Text.Writer) : Emission Unit :=
  modify fun s => { s with header := f s.header }

def line (s : String) : Emission Unit := writeBody (·.line s)

def blank : Emission Unit := writeBody Text.Writer.blank

/-- `tail` follows the closing brace. -/
def bracedWith (tail : String) (content : Emission Unit) : Emission Unit := do
  writeBody Text.Writer.openBrace
  content
  writeBody (·.closeBraceWith tail)

def braced (content : Emission Unit) : Emission Unit := bracedWith "" content

def indented (content : Emission Unit) : Emission Unit := do
  writeBody Text.Writer.indent
  content
  writeBody Text.Writer.dedent

/-- Texts of defaults that were rendered before a failure stay known. -/
def rendering {α : Type} (qualifyAll : Bool) (r : Rendering α) : Emission α := fun ctx =>
  ExceptT.mk fun s =>
    let rendered := r (ctx.scope s.tables.known qualifyAll) s.tables.defaultTexts
    (rendered.1, { s with tables := { s.tables with defaultTexts := rendered.2 } })

/-- A text for this place in this module. -/
def render {α : Type} (r : Rendering α) : Emission α := rendering false r

/-- A text that any module may paste. -/
def renderPortable {α : Type} (r : Rendering α) : Emission α := rendering true r

end Emission
end ColorLowering
