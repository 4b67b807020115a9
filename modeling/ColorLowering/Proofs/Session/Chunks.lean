import ColorLowering.Proofs.Agreement.Apart
import ColorLowering.Proofs.Emission.Parts

/-!
# The outputs of a session are made of chunks

A module that is lowered adds one chunk to each output. Both chunks come from the tables before it,
whatever was written by then, and a module that fails adds none. So the outputs of a session are the
chunks of the modules that it lowered, in this order, the body after the preamble, and to lower a
whole program is to lower its modules one by one up to the first that fails.
-/
namespace ColorLowering

/-- What lowering one module adds to the header and to the body. -/
structure Chunk where
  header : String
  body : String

def Chunk.Frames (p : Program) (m : ModuleId) (c : Chunk) : Prop :=
  ∃ content, c.body = bannerText (p.module m).name (p.module m).file (p.namespaceOf m) ++
    content ++ footerText (p.namespaceOf m)

namespace Session

/-- The chunk of a module that is lowered from these tables where nothing is written yet, and the
tables that it leaves. -/
def chunk (p : Program) (target : Target) (m : ModuleId) (tables : Tables) :
    Except Failure (Chunk × Tables) :=
  match Emission.module (p.module m) ⟨p, target, m⟩ ⟨tables, .empty, .empty⟩ with
  | (.ok (), out) => .ok (⟨out.header.text, out.body.text⟩, out.tables)
  | (.error e, _) => .error e

def chunks (p : Program) (target : Target) :
    Tables → List ModuleId → Except Failure (List Chunk × Tables)
  | tables, [] => .ok ([], tables)
  | tables, m :: rest => do
    let (first, tables) ← chunk p target m tables
    let (others, tables) ← chunks p target tables rest
    return (first :: others, tables)

/-- The session `s'` has the chunks after what `s` had, and these tables. -/
structure Continues (s : Session) (cs : List Chunk) (tables : Tables) (s' : Session) : Prop where
  target : s'.target = s.target
  tables : s'.tables = tables
  header : s'.header.text = s.header.text ++ String.join (cs.map Chunk.header)
  body : s'.body.text = s.body.text ++ String.join (cs.map Chunk.body)
  grew : s.header.Extends s'.header ∧ s.body.Extends s'.body
  margin : s'.AtMargin

theorem Continues.refl {s : Session} (hs : s.AtMargin) : s.Continues [] s.tables s :=
  ⟨rfl, rfl, by simp, by simp, ⟨.refl _, .refl _⟩, hs⟩

theorem Continues.trans {s t u : Session} {cs ds : List Chunk} {tables tables' : Tables}
    (hst : s.Continues cs tables t) (htu : t.Continues ds tables' u) :
    s.Continues (cs ++ ds) tables' u where
  target := htu.target.trans hst.target
  tables := htu.tables
  header := by rw [htu.header, hst.header]; simp [String.append_assoc]
  body := by rw [htu.body, hst.body]; simp [String.append_assoc]
  grew := ⟨hst.grew.1.trans htu.grew.1, hst.grew.2.trans htu.grew.2⟩
  margin := htu.margin

section
variable {p : Program} {target : Target} {s : Session} {m : ModuleId} {tables tables' : Tables}

theorem frames_of_chunk {c : Chunk} (h : chunk p target m tables = .ok (c, tables')) :
    c.Frames p m := by
  unfold chunk at h
  split at h
  · rename_i out hout
    cases h
    obtain ⟨content, hcontent⟩ := Emission.framed_of_module rfl hout
    exact ⟨content, hcontent.trans (by simp [Text.Writer.text, Text.Writer.empty,
      Text.Writer.joined, ModuleContext.namespaceText])⟩
  · cases h

/-- The states of two runs that begin with the same tables, one of them where nothing is written. -/
theorem abreast_start (hs : s.AtMargin) :
    (⟨s.tables, .empty, .empty⟩ : EmissionState).Abreast s.emissionState
      (fun k k' => k = k' ∧ Classification.SameOff p m s.tables.known k)
      (fun texts texts' => texts = texts' ∧
        DefaultTexts.SameOff m s.tables.defaultTexts texts)
      ⟨s.tables, .empty, .empty⟩ s.emissionState where
  known := ⟨rfl, .refl _⟩
  texts := ⟨rfl, .refl _⟩
  header := .start hs.1.symm
  body := .start hs.2.symm
  entries := ⟨[], by simp, by simp [emissionState]⟩

/-- A module whose chunk can be made is lowered, and adds this chunk. -/
theorem continues_of_chunk (hs : s.AtMargin) {c : Chunk}
    (h : chunk p s.target m s.tables = .ok (c, tables)) :
    ∃ s', (lowerModule p m).run s = (.ok (), s') ∧ s.Continues [c] tables s' := by
  unfold chunk at h
  split at h
  · rename_i out hout
    cases h
    obtain ⟨out', hout', ⟨hknown, -⟩, ⟨htexts, -⟩, ⟨⟨header, hh, hh'⟩, -⟩, ⟨⟨body, hb, hb'⟩, -⟩,
      entries, he, he'⟩ := (@Emission.agrees_module_own ⟨p, s.target, m⟩ _ _ _ _).done
        (abreast_start hs) hout
    have run := run_of_module_ok hout'
    have margin := atMargin_lowerModule p m hs
    rw [run] at margin
    have tables_eq : out'.tables = out.tables := by
      have entries_eq : out'.tables.entries = out.tables.entries := by rw [he, he']; rfl
      cases hout : out.tables
      cases hout' : out'.tables
      simp_all
    refine ⟨_, run, rfl, tables_eq, ?_, ?_, ⟨⟨header, hh'⟩, ⟨body, hb'⟩⟩, margin⟩
    · simp [Text.Writer.text, hh, hh', Text.Writer.empty, Text.Writer.joined, emissionState]
    · simp [Text.Writer.text, hb, hb', Text.Writer.empty, Text.Writer.joined, emissionState]
  · cases h

theorem run_of_chunk_error (hs : s.AtMargin) {e : Failure}
    (h : chunk p s.target m s.tables = .error e) :
    (lowerModule p m).run s = (.error e, s) := by
  unfold chunk at h
  split at h
  · cases h
  · rename_i e' out hout
    cases h
    obtain ⟨out', hout'⟩ := (@Emission.agrees_module_own ⟨p, s.target, m⟩ _ _ _ _).failed
      (abreast_start hs) hout trivial
    have run := run_of_module_error hout'
    rw [eq_of_lowerModule_error hs run] at run
    exact run

theorem chunk_of_run_ok (hs : s.AtMargin) {s' : Session}
    (hrun : (lowerModule p m).run s = (.ok (), s')) :
    ∃ c, chunk p s.target m s.tables = .ok (c, s'.tables) ∧ s.Continues [c] s'.tables s' := by
  cases h : chunk p s.target m s.tables with
  | error e =>
      rw [run_of_chunk_error hs h] at hrun
      cases hrun
  | ok made =>
      obtain ⟨t, run, continued⟩ := continues_of_chunk hs h
      rw [run] at hrun
      cases hrun
      obtain ⟨c, tables⟩ := made
      obtain rfl : s'.tables = tables := continued.tables
      exact ⟨c, rfl, continued⟩

theorem chunks_concat {ms : List ModuleId} {cs : List Chunk} {c : Chunk}
    (h : chunks p target tables ms = .ok (cs, tables'))
    {last : Tables} (hlast : chunk p target m tables' = .ok (c, last)) :
    chunks p target tables (ms ++ [m]) = .ok (cs ++ [c], last) := by
  induction ms generalizing tables cs with
  | nil =>
      cases h
      simp [chunks, hlast, bind, Except.bind, pure, Except.pure]
  | cons first rest ih =>
      rw [chunks] at h
      rw [List.cons_append, chunks]
      cases hfirst : chunk p target first tables with
      | error e =>
          rw [hfirst] at h
          cases h
      | ok made =>
          rw [hfirst] at h
          cases hrest : chunks p target made.2 rest with
          | error e =>
              simp [hrest, bind, Except.bind] at h
          | ok others =>
              simp only [hrest, bind, Except.bind, pure, Except.pure, Except.ok.injEq,
                Prod.mk.injEq] at h
              obtain ⟨rfl, rfl⟩ := h
              simp [bind, Except.bind, pure, Except.pure, ih hrest]

/-- A session that is reached has the chunks of the modules that it lowered. -/
theorem Reached.continues {done : List ModuleId} (hs : Reached p target done s) :
    ∃ cs, chunks p target .empty done = .ok (cs, s.tables) ∧
      (Session.new target).Continues cs s.tables s ∧
      List.Forall₂ (fun m c => c.Frames p m) done cs := by
  induction hs with
  | new => exact ⟨[], rfl, .refl (atMargin_new target), .nil⟩
  | @lowered done s s' m hs hrun ih =>
      obtain ⟨cs, hchunks, continued, framed⟩ := ih
      obtain ⟨c, hchunk, last⟩ := chunk_of_run_ok hs.atMargin hrun
      rw [continued.target] at hchunk
      refine ⟨cs ++ [c], chunks_concat hchunks hchunk, continued.trans last, ?_⟩
      exact List.rel_append framed (.cons (frames_of_chunk hchunk) .nil)
  | failed hs hrun ih =>
      rw [eq_of_lowerModule_error hs.atMargin hrun]
      exact ih

end

def Answer.ofChunk (before : Tables) : Except Failure (Chunk × Tables) → Answer
  | .ok (c, tables) => ⟨.ok (), c.header, c.body, tables.entries⟩
  | .error e => ⟨.error e, "", "", before.entries⟩

def Answer.failure? (a : Answer) : Option Failure :=
  match a.result with
  | .ok () => none
  | .error e => some e

end Session

theorem Text.Writer.textSince_of_text {w later : Text.Writer} {added : String}
    (h : w.Extends later) (htext : later.text = w.text ++ added) :
    later.textSince w.mark = added := by
  obtain ⟨pieces, hpieces⟩ := h
  have since : later.textSince w.mark = joined pieces := by
    simp [textSince, mark, hpieces]
  rw [since]
  have both : w.text ++ joined pieces = w.text ++ added := by
    rw [← htext, text, text, hpieces, joined_append]
  exact (String.append_right_inj w.text).mp both

namespace Session

theorem header_new (target : Target) : (new target).header.text = "" := by
  simp [new, Text.Writer.text, Text.Writer.joined, Text.Writer.empty]

theorem body_new (target : Target) : (new target).body.text = Preamble.text target := by
  simp [new, Text.Writer.text, Text.Writer.raw, Text.Writer.joined, Text.Writer.empty]

section
variable {p : Program} {s : Session}

/-- What a request for a module gives back is its chunk or the reason why there is none. -/
theorem answer_eq_ofChunk (hs : s.AtMargin) (m : ModuleId) :
    s.answer p (.module m) = .ofChunk s.tables (chunk p s.target m s.tables) ∧
      s.Continues (match chunk p s.target m s.tables with
        | .ok (c, _) => [c]
        | .error _ => []) (s.next p (.module m)).tables (s.next p (.module m)) := by
  cases h : chunk p s.target m s.tables with
  | error e =>
      have run : (Step.run p (.module m)).run s = (.error e, s) := run_of_chunk_error hs h
      have unchanged : s.next p (.module m) = s := congrArg Prod.snd run
      rw [unchanged]
      refine ⟨?_, .refl hs⟩
      simp [answer, unchanged, run, Answer.ofChunk, Text.Writer.textSince, Text.Writer.mark,
        Text.Writer.joined]
  | ok made =>
      obtain ⟨c, tables⟩ := made
      obtain ⟨s', hrun, continued⟩ := continues_of_chunk hs h
      have run : (Step.run p (.module m)).run s = (.ok (), s') := hrun
      have after : s.next p (.module m) = s' := congrArg Prod.snd run
      have header : s'.header.textSince s.header.mark = c.header :=
        Text.Writer.textSince_of_text continued.grew.1 (by simpa using continued.header)
      have body : s'.body.textSince s.body.mark = c.body :=
        Text.Writer.textSince_of_text continued.grew.2 (by simpa using continued.body)
      obtain rfl := continued.tables
      rw [after]
      refine ⟨?_, continued⟩
      simp [answer, after, run, Answer.ofChunk, header, body]

/-- Each request for a module adds to the outputs what it gives back. -/
theorem text_next (hs : s.AtMargin) (m : ModuleId) :
    (s.next p (.module m)).header.text = s.header.text ++ (s.answer p (.module m)).header ∧
      (s.next p (.module m)).body.text = s.body.text ++ (s.answer p (.module m)).body := by
  obtain ⟨hanswer, continued⟩ := answer_eq_ofChunk (p := p) hs m
  rw [continued.header, continued.body, hanswer]
  cases chunk p s.target m s.tables <;> simp [Answer.ofChunk]

theorem text_history (hs : s.AtMargin) (ms : List ModuleId) :
    let steps := ms.map Step.module
    (s.after p steps).header.text =
        s.header.text ++ String.join ((s.history p steps).map (·.2.header)) ∧
      (s.after p steps).body.text =
        s.body.text ++ String.join ((s.history p steps).map (·.2.body)) := by
  induction ms generalizing s with
  | nil => simp [after, history]
  | cons m rest ih =>
      obtain ⟨header, body⟩ := ih (atMargin_next p hs (.module m))
      obtain ⟨firstHeader, firstBody⟩ := text_next (p := p) hs m
      rw [firstHeader] at header
      rw [firstBody] at body
      simp only [List.map_cons, history, String.join_cons, ← String.append_assoc]
      exact ⟨header, body⟩

def firstFailure? (steps : List (Step × Answer)) : Option Failure :=
  steps.findSome? (·.2.failure?)

/-- Modules lowered in a row end with the first failure, or as they do one by one. -/
theorem run_forM_eq_history (s : Session) (ms : List ModuleId) :
    (firstFailure? (s.history p (ms.map .module)) = none →
      (ms.forM (lowerModule p)).run s = (.ok (), s.after p (ms.map .module))) ∧
    ∀ e, firstFailure? (s.history p (ms.map .module)) = some e →
      ((ms.forM (lowerModule p)).run s).1 = .error e := by
  rw [List.forM_eq_forM]
  induction ms generalizing s with
  | nil => exact ⟨fun _ => rfl, fun _ h => (by cases h)⟩
  | cons m rest ih =>
      obtain ⟨ends, stops⟩ := ih ((lowerModule p m).run s).2
      rw [List.forM_cons, run_bind]
      cases hrun : (lowerModule p m).run s with
      | mk result s' =>
          rw [hrun] at ends stops
          have run : (Step.run p (.module m)).run s = (result, s') := hrun
          cases result with
          | error e => simp [firstFailure?, history, Answer.failure?, answer, run]
          | ok u =>
              simp only [firstFailure?, List.map_cons, history, List.findSome?_cons, after,
                List.foldl_cons, Answer.failure?, answer, next, run] at ends stops ⊢
              exact ⟨ends, stops⟩

theorem lower_eq_oneByOne (p : Program) (target : Target) :
    let oneByOne := (new target).history p (p.moduleIds.map .module)
    lower p target = match firstFailure? oneByOne with
      | some e => .error e
      | none => .ok ⟨String.join (oneByOne.map (·.2.header)),
          Preamble.text target ++ String.join (oneByOne.map (·.2.body)),
          ((new target).after p (p.moduleIds.map .module)).tables.entries⟩ := by
  intro oneByOne
  obtain ⟨ends, stops⟩ := run_forM_eq_history (p := p) (new target) p.moduleIds
  obtain ⟨header, body⟩ := text_history (p := p) (atMargin_new target) p.moduleIds
  cases hfailure : firstFailure? oneByOne with
  | none =>
      have run : (lowerAll p).run (new target) = _ := ends hfailure
      rw [header_new, String.empty_append] at header
      rw [body_new] at body
      rw [lower, run, ← header, ← body]
      rfl
  | some e =>
      cases hrun : (lowerAll p).run (new target) with
      | mk result s' =>
          have stopped : ((lowerAll p).run (new target)).1 = .error e := stops e hfailure
          rw [hrun] at stopped
          obtain rfl : result = .error e := stopped
          rw [lower, hrun]

/-- The outputs of a session are made of one chunk for each module that it lowered, in the order in
which they were lowered, the body after the preamble. A chunk is framed by the banner and the footer
of its module and comes from the tables before it, whatever was written by then. Lowering the whole
program gives the first failure of its modules lowered one by one, or what they add to the outputs.
-/
theorem outputs_made_of_chunks (p : Program) (target : Target) (steps : List Step) :
    let s := (new target).after p steps
    let done := loweredBy p (new target) steps
    let oneByOne := (new target).history p (p.moduleIds.map .module)
    s.AtMargin ∧
    (∃ cs, chunks p target .empty done = .ok (cs, s.tables) ∧
      s.body.text = Preamble.text target ++ String.join (cs.map Chunk.body) ∧
      s.header.text = String.join (cs.map Chunk.header) ∧
      List.Forall₂ (fun m c => c.Frames p m) done cs) ∧
    (∀ m, s.answer p (.module m) = .ofChunk s.tables (chunk p target m s.tables)) ∧
    lower p target = match firstFailure? oneByOne with
      | some e => .error e
      | none => .ok ⟨String.join (oneByOne.map (·.2.header)),
          Preamble.text target ++ String.join (oneByOne.map (·.2.body)),
          ((new target).after p (p.moduleIds.map .module)).tables.entries⟩ := by
  intro s done oneByOne
  obtain ⟨cs, hchunks, continued, framed⟩ := (Reached.new.after steps).continues
  refine ⟨continued.margin, ⟨cs, hchunks, ?_, ?_, framed⟩, fun m => ?_, lower_eq_oneByOne p target⟩
  · rw [continued.body, body_new]
  · rw [continued.header, header_new, String.empty_append]
  · rw [(answer_eq_ofChunk continued.margin m).1, continued.target]
    rfl

end
end Session
end ColorLowering
