import ColorLowering.Proofs.Emission.Signatures
import ColorLowering.Proofs.Session.Chunks
import ColorLowering.Proofs.Session.Independence

/-!
# The functions of a session in its texts

Each module that is lowered enters its entry routines and declares them in the header, in the order
of its functions. Its chunk of the body declares ahead the functions that its constants call and
defines all of them, each under the head that it has in the header. Only an entry routine is not
static, and only a function that was declared ahead is static without being inline.
-/
namespace ColorLowering

def Program.isNamedEntry (p : Program) (m : ModuleId) (f : SymbolId) : Bool :=
  let name := Text.unqualified (p.symbol f).name
  name = "main" || name = (p.module m).name

def Program.published (p : Program) (ms : List ModuleId) : List (ModuleId × SymbolId) :=
  ms.flatMap fun m => (((p.module m).functions.map Function.symbol).filter (p.isNamedEntry m)).map
    fun f => (m, f)

/-- The chunk `c` of a module that was lowered from these tables: one line for each of the functions
that are declared ahead, and at the end one definition for each function. -/
def Chunk.DeclaresFunctions (p : Program) (target : Target) (m : ModuleId) (tables : Tables)
    (c : Chunk) : Prop :=
  let functions := (p.module m).functions
  let head := fun f : Function => p.head target f.symbol
  let storage := fun f : Function => storageText (p.isNamedEntry m f.symbol)
  let isAhead := fun f : Function => p.callsOutright m f.symbol
  let ahead := functions.filter isAhead
  ∃ surveyed opened start lowered declared closed last, ∃ definitions : List String,
    Emission.ModuleRun ⟨p, target, m⟩ (p.module m) ⟨tables, .empty, .empty⟩
      surveyed opened start lowered declared closed last ∧
    start.body.text = opened.body.text ++
      String.join (ahead.map fun f => (head f).declaration (storage f true) ++ "\n") ++
      (if ahead.isEmpty then "" else "\n") ∧
    List.Forall₂ (fun f definition => ∃ code, ModuleContext.WritesCode ⟨p, target, m⟩ f code ∧
      definition = (head f).definition (storage f (isAhead f)) code) functions definitions ∧
    c.body = closed.body.text ++ String.join definitions ++ footerText (p.namespaceOf m)

namespace Session

variable {p : Program} {target : Target} {m : ModuleId} {s : Session} {tables : Tables} {c : Chunk}

/-- The module that lists a function owns it, so that either way to tell an entry routine will do. -/
theorem isEntry_eq_isNamedEntry (howned : p.OwnsFunctions) {f : Function}
    (hf : f ∈ (p.module m).functions) :
    ModuleContext.isEntry ⟨p, target, m⟩ f = p.isNamedEntry m f.symbol := by
  simp [ModuleContext.isEntry, Program.isEntry, Program.isNamedEntry, howned m f hf]

theorem published_eq (howned : p.OwnsFunctions) :
    p.published [m] =
      ((p.module m).functions.filter (ModuleContext.isEntry ⟨p, target, m⟩)).map
        fun f => (m, f.symbol) := by
  rw [List.filter_congr fun f hf => isEntry_eq_isNamedEntry howned hf]
  simp [Program.published, List.filter_map, Function.comp_def]

section
variable {done : List ModuleId} {surveyed opened start declared closed last : EmissionState}
  {lowered : List LoweredConstant}
  (run : Emission.ModuleRun ⟨p, target, m⟩ (p.module m) ⟨s.tables, .empty, .empty⟩
    surveyed opened start lowered declared closed last)
include run

/-- What a module of a session that is reached declares ahead are its functions that its constants
call. -/
theorem called_of_run (hs : Reached p target done s) {f : SymbolId}
    (howned : (p.symbol f).module = some m) :
    opened.tables.known.calledInInit.contains f = p.callsOutright m f ∧
      closed.tables.known.calledInInit.contains f = p.callsOutright m f := by
  have noted : surveyed.tables.known.calledInInit.contains f = p.callsOutright m f := by
    rw [Bool.eq_iff_iff, @Emission.surveyConstants_notes_own ⟨p, target, m⟩ _ _ run.survey f]
    constructor
    · rintro (hbefore | ⟨hcalls, -⟩)
      · exact hs.notes hbefore howned
      · exact hcalls
    · exact fun hcalls => .inr ⟨hcalls, howned⟩
  rw [run.calledInInit.1, run.calledInInit.2, noted]
  exact ⟨rfl, rfl⟩

theorem ahead_of_run (howned : p.OwnsFunctions) (hs : Reached p target done s)
    (hfunctions : ∀ f ∈ (p.module m).functions, (p.symbol f.symbol).isFunction) :
    let ahead := (p.module m).functions.filter fun f => p.callsOutright m f.symbol
    start.body.text = opened.body.text ++
      String.join (ahead.map fun f => (p.head target f.symbol).declaration
        (storageText (p.isNamedEntry m f.symbol) true) ++ "\n") ++
      (if ahead.isEmpty then "" else "\n") := by
  intro ahead
  have called : (p.module m).functions.filter
      (fun f => opened.tables.known.calledInInit.contains f.symbol) = ahead :=
    List.filter_congr fun f hf => (called_of_run run hs (howned m f hf)).1
  have forward := Emission.forwardDeclarations_ok run.forward
  dsimp only at forward
  rw [called] at forward
  have line {f : Function} (hf : f ∈ ahead) : ModuleContext.forwardLine ⟨p, target, m⟩ f =
      (p.head target f.symbol).declaration (storageText (p.isNamedEntry m f.symbol) true) := by
    have listed := List.mem_of_mem_filter hf
    rw [Emission.forwardLine_eq (hfunctions f listed), isEntry_eq_isNamedEntry howned listed]
    rfl
  rw [List.map_congr_left fun f hf => line hf] at forward
  rw [forward]
  split <;> simp [EmissionState.withBody, (run.left rfl).1, Function.comp_def]

end

/-- The functions of a module in the chunk that it adds to a session that is reached. -/
theorem declaresFunctions_of_chunk {done : List ModuleId} (howned : p.OwnsFunctions)
    (hs : Reached p target done s) (h : chunk p target m s.tables = .ok (c, tables)) :
    c.DeclaresFunctions p target m s.tables ∧
      tables.entries = s.tables.entries ++
        (p.published [m]).map (fun e => p.routine target e.1 e.2) ∧
      c.header = String.join ((p.published [m]).map
        fun e => (p.head target e.2).publicText (p.namespaceOf e.1)) := by
  unfold chunk at h
  split at h
  · rename_i out hout
    cases h
    obtain ⟨surveyed, opened, start, lowered, declared, closed, last, run, rfl⟩ :=
      Emission.moduleRun_of_ok hout
    obtain ⟨-, -, left_closed, left_last⟩ := run.left rfl
    obtain ⟨hheader, hentries⟩ := run.unpublished
    obtain ⟨hfunctions, ⟨hroutines, hpublic⟩, definitions, hdefines, hwritten⟩ :=
      Emission.functions_ok (by rw [hheader]; rfl) left_closed run.functions
    refine ⟨⟨surveyed, opened, start, lowered, declared, closed, last, definitions, run,
      ahead_of_run run howned hs hfunctions, ?_, ?_⟩, ?_, ?_⟩
    · refine ((List.forall₂_and_left _ _).mpr ⟨fun f hf => hf, hdefines⟩).imp ?_
      rintro f text ⟨hf, code, hcode, rfl⟩
      refine ⟨code, hcode, ?_⟩
      rw [isEntry_eq_isNamedEntry howned hf, (called_of_run run hs (howned m f hf)).2]
      rfl
    · simp [EmissionState.withBody, left_last, hwritten, footerText, ModuleContext.namespaceText]
    · rw [published_eq howned, List.map_map]
      exact hroutines.trans (by rw [hentries]; rfl)
    · rw [published_eq howned, List.map_map]
      refine hpublic.trans ?_
      rw [hheader]
      exact String.empty_append
  · cases h

/-- The functions of the modules that a session has lowered. -/
theorem Reached.signatures {done : List ModuleId} (howned : p.OwnsFunctions)
    (hs : Reached p target done s) :
    s.tables.entries = (p.published done).map (fun e => p.routine target e.1 e.2) ∧
      s.header.text = String.join ((p.published done).map
        fun e => (p.head target e.2).publicText (p.namespaceOf e.1)) ∧
      ∃ cs, chunks p target .empty done = .ok (cs, s.tables) ∧
        s.body.text = Preamble.text target ++ String.join (cs.map Chunk.body) ∧
        List.Forall₂ (fun m c => ∃ before after, chunk p target m before = .ok (c, after) ∧
          c.DeclaresFunctions p target m before) done cs := by
  induction hs with
  | new => exact ⟨rfl, header_new target, [], rfl, by simp [body_new], .nil⟩
  | @lowered done s s' m hs hrun ih =>
      obtain ⟨hentries, hheader, cs, hchunks, hbody, hdeclares⟩ := ih
      obtain ⟨c, hchunk, last⟩ := chunk_of_run_ok hs.atMargin hrun
      obtain ⟨_, _, continued, _⟩ := hs.continues
      rw [continued.target] at hchunk
      obtain ⟨declares, entries, header⟩ := declaresFunctions_of_chunk howned hs hchunk
      have appended : p.published (done ++ [m]) = p.published done ++ p.published [m] :=
        List.flatMap_append
      refine ⟨?_, ?_, cs ++ [c], chunks_concat hchunks hchunk, ?_, ?_⟩
      · rw [entries, hentries, appended, List.map_append]
      · rw [last.header, hheader, appended, List.map_append, String.join_append]
        simp [header]
      · rw [last.body, hbody]
        simp [String.append_assoc]
      · exact List.rel_append hdeclares (.cons ⟨_, _, hchunk, declares⟩ .nil)
  | failed hs hrun ih =>
      rw [eq_of_lowerModule_error hs.atMargin hrun]
      exact ih

/-- In every session the entry routines are the functions called `main` or as their module, in the
order in which the modules were lowered and each lists its functions, and the header declares them
in this order. The body defines every function under the head that it has in the header and where it
is declared ahead; an entry routine is not static, and another function is static where it was
declared ahead in its module and static inline where it was not. -/
theorem signatures_agree (howned : p.OwnsFunctions) (target : Target) (steps : List Step) :
    let s := (new target).after p steps
    let done := loweredBy p (new target) steps
    s.tables.entries = (p.published done).map (fun e => p.routine target e.1 e.2) ∧
      s.header.text = String.join ((p.published done).map
        fun e => (p.head target e.2).publicText (p.namespaceOf e.1)) ∧
      ∃ cs, chunks p target .empty done = .ok (cs, s.tables) ∧
        s.body.text = Preamble.text target ++ String.join (cs.map Chunk.body) ∧
        List.Forall₂ (fun m c => ∃ before after, chunk p target m before = .ok (c, after) ∧
          c.DeclaresFunctions p target m before) done cs :=
  (Reached.new.after steps).signatures howned

def routinesProgram : Program where
  symbols := #[⟨"g", some ⟨0⟩, .fn [] (.scalar .int)⟩,
    ⟨"main", some ⟨0⟩, .fn [⟨"a", .scalar .float, .read⟩] .void⟩,
    ⟨"m", some ⟨0⟩, .fn [] .void⟩, ⟨"h", some ⟨0⟩, .fn [] .void⟩,
    ⟨"x", some ⟨0⟩, .var (.scalar .int) false⟩]
  modules := #[⟨"m", "m.ctl", [], [⟨⟨4⟩, some (.call (.scalar .int) (.function ⟨0⟩ []) [])⟩],
    [⟨⟨0⟩, []⟩, ⟨⟨1⟩, []⟩, ⟨⟨2⟩, []⟩, ⟨⟨3⟩, []⟩]⟩]

theorem routines_published : routinesProgram.OwnsFunctions ∧
    let s := (new .standard).after routinesProgram [.module ⟨0⟩]
    s.header.text = "namespace m \x7b\nvoid m( const float a );\n\x7d // namespace m\n" ++
      "namespace m \x7b\nvoid m();\n\x7d // namespace m\n" ∧
    s.tables.entries = [⟨"m", "m::m", ⟨1⟩⟩, ⟨"m", "m::m", ⟨2⟩⟩] ∧
    ∃ c : Chunk, s.body.text = Preamble.text .standard ++ c.body ∧
      ∃ before, c.DeclaresFunctions routinesProgram .standard ⟨0⟩ before := by
  have owned : routinesProgram.OwnsFunctions := by
    rintro ⟨_ | n⟩ <;> simp [routinesProgram, Program.module, Program.symbol]
  have once : loweredBy routinesProgram (new .standard) [.module ⟨0⟩] = [⟨0⟩] := rfl
  obtain ⟨hentries, hheader, cs, hchunks, hbody, hdeclares⟩ :=
    signatures_agree owned .standard [.module ⟨0⟩]
  rw [once] at hentries hheader hdeclares
  obtain ⟨c, _, ⟨before, -, -, declares⟩, hnil, rfl⟩ := List.forall₂_cons_left_iff.mp hdeclares
  obtain rfl := List.forall₂_nil_left_iff.mp hnil
  exact ⟨owned, hheader.trans rfl, hentries.trans rfl, c, hbody.trans (by simp), before, declares⟩

end Session
end ColorLowering
