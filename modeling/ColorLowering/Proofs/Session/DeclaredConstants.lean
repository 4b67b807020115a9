import ColorLowering.Proofs.Constants.Declarations
import ColorLowering.Proofs.Session.Entries
import ColorLowering.Proofs.Session.Signatures

/-!
# The constants of a session in its texts

Every chunk of the body declares the constants of its module that are neither literals nor
placeholders, each under its identifier and as it is registered. The modules after it change nothing
of that.
-/
namespace ColorLowering

/-- The chunk `c` of the module stands in its namespace and has one line for each of the declared
constants, as they are registered in `known`. -/
def Chunk.DeclaresConstants (p : Program) (target : Target) (m : ModuleId) (known : Classification)
    (c : Chunk) : Prop :=
  ∃ opening closing, ∃ lowered : List LoweredConstant,
    c.body = bannerText (p.module m).name (p.module m).file (p.namespaceOf m) ++ opening ++
      String.join (lowered.map fun l => l.line ++ "\n") ++ closing ++
      footerText (p.namespaceOf m) ∧
    List.Forall₂ (ModuleContext.WritesConstant ⟨p, target, m⟩ known)
      ((p.module m).constants.filter (p.declares known)) lowered

theorem ModuleContext.WritesConstant.congr {ctx : ModuleContext} {k k' : Classification}
    {c : Constant} {lowered : LoweredConstant} (h : ctx.WritesConstant k c lowered)
    (hentry : k.SameEntry k' c.symbol) : ctx.WritesConstant k' c lowered := by
  have registered : k'.isDeferred c.symbol = k.isDeferred c.symbol := by
    rw [Classification.isDeferred, Classification.isDeferred, hentry.strategy]
  exact ⟨h.symbol, fun hdeferred => h.deferred (registered ▸ hdeferred),
    fun hother => h.other (registered ▸ hother)⟩

/-- What the constants of the module are known as decides how they are declared. -/
theorem Chunk.DeclaresConstants.congr {p : Program} {target : Target} {m : ModuleId}
    {k k' : Classification} {c : Chunk} (h : c.DeclaresConstants p target m k)
    (hentry : ∀ d ∈ (p.module m).constants, k.SameEntry k' d.symbol) :
    c.DeclaresConstants p target m k' := by
  obtain ⟨opening, closing, lowered, hbody, hlines⟩ := h
  have declared : (p.module m).constants.filter (p.declares k') =
      (p.module m).constants.filter (p.declares k) :=
    List.filter_congr fun d hd => by
      rw [Program.declares, Program.declares, Table.contains, Table.contains,
        (hentry d hd).literal]
  refine ⟨opening, closing, lowered, hbody, ?_⟩
  rw [declared]
  refine ((List.forall₂_and_left _ _).mpr ⟨fun d hd => hd, hlines⟩).imp ?_
  exact fun d l hd => hd.2.congr (hentry d (List.mem_of_mem_filter hd.1))

namespace Session

variable {p : Program} {target : Target} {done : List ModuleId} {s : Session}

theorem declaresConstants_of_chunk (hp : p.OwnsConstants) {m : ModuleId} {tables tables' : Tables}
    {c : Chunk} (h : chunk p target m tables = .ok (c, tables')) :
    c.DeclaresConstants p target m tables'.known := by
  unfold chunk at h
  split at h
  · rename_i out hout
    cases h
    obtain ⟨surveyed, opened, start, lowered, declared, closed, last, run, rfl⟩ :=
      Emission.moduleRun_of_ok hout
    obtain ⟨left_opened, left_start, -, left_last⟩ := run.left rfl
    obtain ⟨t, hlist, rfl⟩ := Emission.constants_ok run.constants
    have initializer := run.initializer
    rw [Emission.moduleInitializer_apply] at initializer
    cases initializer
    obtain ⟨structs, hopened⟩ := Emission.text_of_opening (by rw [run.body_surveyed]; rfl)
      run.opening
    obtain ⟨ahead, hstart⟩ := Text.Writer.exists_text_of_extends run.grew_start.1.2
    obtain ⟨functions, hlast⟩ := Text.Writer.exists_text_of_extends run.grew_last.1.2
    have lines := Emission.text_of_constantList hlist left_start
    have functions_known : Emission.WithinAt (fun s t => t.tables.known = s.tables.known)
        (fun _ _ => True) ⟨p, target, m⟩ ((p.module m).functions.forM Emission.function) :=
      (Emission.known_frame.property _).forM fun f _ =>
        (Emission.known_frame.functionProperty _).function (.refl _) (fun _ _ => rfl)
          fun _ _ => trivial
    have ended := functions_known.done run.functions
    have known : last.tables.known = t.tables.known := ended
    have literals := ((Emission.literals_frame.within_constantList _).done hlist).1
    have same : p.declares last.tables.known = p.declares start.tables.known := by
      funext d
      rw [Program.declares, Program.declares, known, literals]
    refine ⟨structs ++ ahead, (if (p.module m).constants.isEmpty then "" else "\n") ++
      Emission.initializerText (p.namespaceOf m) (lowered.flatMap LoweredConstant.statements) ++
      functions, lowered, ?_, ?_⟩
    · simp only [Text.Writer.indentLines_zero] at lines
      have written := hlast.trans (congrArg (· ++ functions) lines)
      rw [hstart, hopened, run.body_surveyed] at written
      simp only [EmissionState.withBody, Text.Writer.text_line, left_last,
        Text.Writer.indentLines_zero, written]
      simp [footerText, ModuleContext.namespaceText, String.append_assoc, Text.Writer.text,
        Text.Writer.joined, Text.Writer.empty]
    · change List.Forall₂ _ ((p.module m).constants.filter (p.declares last.tables.known)) _
      rw [same]
      change List.Forall₂ (ModuleContext.WritesConstant _ last.tables.known) _ _
      rw [known]
      exact Emission.writesConstant_of_constantList (hp.once m) hlist
  · cases h

/-- The chunks of a session that lowered every module once, and what they declare. -/
theorem Reached.declarations (hp : p.OwnsConstants) (howned : p.OwnsFunctions)
    (hs : Reached p target done s) (hdone : done.Nodup) :
    ∃ cs, s.body.text = Preamble.text target ++ String.join (cs.map Chunk.body) ∧
      List.Forall₂ (fun m c => c.DeclaresConstants p target m s.tables.known ∧
        ∃ tables, c.DeclaresFunctions p target m tables) done cs := by
  induction hs with
  | new => exact ⟨[], by simp [body_new], .nil⟩
  | @lowered done s s' m hs hrun ih =>
      rw [List.nodup_append] at hdone
      obtain ⟨hbefore, -, hapart⟩ := hdone
      obtain ⟨cs, hbody, hdeclares⟩ := ih hbefore
      obtain ⟨c, hchunk, last⟩ := chunk_of_run_ok hs.atMargin hrun
      obtain ⟨_, _, continued, _⟩ := hs.continues
      rw [continued.target] at hchunk
      have kept : ∀ n ∈ done, ∀ d ∈ (p.module n).constants,
          s.tables.known.SameEntry s'.tables.known d.symbol := by
        intro n hn d hd
        refine sameEntry_of_run hrun fun d' hd' heq => hapart n hn m (by simp) ?_
        have owner := hp.owned m d' hd'
        rw [heq, hp.owned n d hd] at owner
        exact Option.some.inj owner
      refine ⟨cs ++ [c], ?_, List.rel_append ?_ (.cons ⟨declaresConstants_of_chunk hp hchunk, ?_⟩
        .nil)⟩
      · rw [last.body, hbody]
        simp [String.append_assoc]
      · refine ((List.forall₂_and_left _ _).mpr ⟨fun n hn => hn, hdeclares⟩).imp ?_
        exact fun n d hd => ⟨hd.2.1.congr (kept n hd.1), hd.2.2⟩
      · exact ⟨_, (declaresFunctions_of_chunk howned hs hchunk).1⟩
  | failed hs hrun ih =>
      rw [eq_of_lowerModule_error hs.atMargin hrun]
      exact ih hdone

end Session
end ColorLowering
