import ColorLowering.Proofs.Emission.Emitters

/-!
# Emission only adds

Every emitter only adds pieces to the two outputs and ends at the margin where it began.
-/
namespace ColorLowering

namespace Text.Writer

def Extends (w later : Writer) : Prop := ∃ pieces, later.pieces = w.pieces ++ pieces

theorem Extends.refl (w : Writer) : w.Extends w := ⟨#[], by simp⟩

theorem Extends.trans {u v w : Writer} (huv : u.Extends v) (hvw : v.Extends w) : u.Extends w := by
  obtain ⟨first, hfirst⟩ := huv
  obtain ⟨second, hsecond⟩ := hvw
  exact ⟨first ++ second, by rw [hsecond, hfirst, Array.append_assoc]⟩

theorem extends_raw (w : Writer) (s : String) : w.Extends (w.raw s) := ⟨#[s], by simp [raw]⟩

theorem extends_line (w : Writer) (s : String) : w.Extends (w.line s) := w.extends_raw _

theorem extends_openBrace (w : Writer) : w.Extends w.openBrace := w.extends_line _

theorem extends_closeBraceWith (w : Writer) (tail : String) : w.Extends (w.closeBraceWith tail) :=
  w.dedent.extends_raw _

end Text.Writer

namespace EmissionState

def Grew (s t : EmissionState) : Prop := s.header.Extends t.header ∧ s.body.Extends t.body

def SameMargins (s t : EmissionState) : Prop :=
  t.header.level = s.header.level ∧ t.body.level = s.body.level

theorem Grew.refl (s : EmissionState) : s.Grew s := ⟨.refl _, .refl _⟩

theorem Grew.trans {s t u : EmissionState} (hst : s.Grew t) (htu : t.Grew u) : s.Grew u :=
  ⟨hst.1.trans htu.1, hst.2.trans htu.2⟩

theorem SameMargins.refl (s : EmissionState) : s.SameMargins s := ⟨rfl, rfl⟩

theorem SameMargins.trans {s t u : EmissionState} (hst : s.SameMargins t)
    (htu : t.SameMargins u) : s.SameMargins u :=
  ⟨htu.1.trans hst.1, htu.2.trans hst.2⟩

end EmissionState

open EmissionState in
/-- A failure may leave the margins anywhere, but even then the outputs have only grown. -/
theorem growth_frame : ModuleFrame (fun s t => s.Grew t ∧ s.SameMargins t) Grew where
  refl s := ⟨.refl s, .refl s⟩
  trans hst htu := ⟨hst.1.trans htu.1, hst.2.trans htu.2⟩
  stop := Grew.refl
  fail hst htu := hst.1.trans htu
  texts s _ := ⟨.refl s, .refl s⟩
  line s text := ⟨⟨.refl _, s.body.extends_line text⟩, rfl, rfl⟩
  blank s := ⟨⟨.refl _, s.body.extends_raw _⟩, rfl, rfl⟩
  braced {s t} tail h := by
    obtain ⟨⟨hheader, hbody⟩, hlevel, hdeep⟩ := h
    refine ⟨⟨hheader, ?_⟩, hlevel, ?_⟩
    · exact (s.body.extends_openBrace.trans hbody).trans (t.body.extends_closeBraceWith tail)
    · have deeper : t.body.level = s.body.level + 1 := hdeep
      change t.body.level - 1 = s.body.level
      omega
  bracedFailed {s t} h := ⟨h.1, s.body.extends_openBrace.trans h.2⟩
  indented {s t} h := by
    obtain ⟨⟨hheader, hbody⟩, hlevel, hdeep⟩ := h
    refine ⟨⟨hheader, hbody⟩, hlevel, ?_⟩
    have deeper : t.body.level = s.body.level + 1 := hdeep
    change t.body.level - 1 = s.body.level
    omega
  indentedFailed h := h
  header s text := ⟨⟨s.header.extends_line text, .refl _⟩, rfl, rfl⟩
  entry s _ := ⟨.refl s, .refl s⟩
  global s _ _ := ⟨.refl s, .refl s⟩
  default s _ _ := ⟨.refl s, .refl s⟩
  literal s _ _ _ := ⟨.refl s, .refl s⟩
  callees s _ := ⟨.refl s, .refl s⟩
  needsModuleInit s _ := ⟨.refl s, .refl s⟩

end ColorLowering
