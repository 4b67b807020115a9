import ColorLowering.Proofs.Emission.Growth
import ColorLowering.Session

/-!
# Failed modules leave no trace

Emission only adds to its two outputs and ends at the margin where it began. Between modules both
margins are therefore at the left edge, where rewinding puts them, and rewinding after a failure
restores the session exactly. The steps of a history that failed can be left out of it.
-/
namespace ColorLowering

/-- Rewinding to a mark restores a writer that stood at the left edge. -/
theorem Text.Writer.rewind_of_extends {w later : Text.Writer} (h : w.Extends later)
    (hw : w.level = 0) : later.rewind w.mark = w := by
  obtain ⟨pieces, hp⟩ := h
  have restored := w.rewind_mark pieces later.level
  rw [← hp] at restored
  rw [restored, ← hw]

namespace Session

def AtMargin (s : Session) : Prop := s.header.level = 0 ∧ s.body.level = 0

theorem atMargin_new (target : Target) : (new target).AtMargin := ⟨rfl, rfl⟩

section
variable {p : Program} {s : Session}

theorem run_of_module_ok {m : ModuleId} {out : EmissionState}
    (h : Emission.module (p.module m) ⟨p, s.target, m⟩ s.emissionState = (.ok (), out)) :
    (lowerModule p m).run s = (.ok (), ⟨s.target, out.tables, out.header, out.body⟩) := by
  cases hrun : (lowerModule p m).run s with
  | mk result s' =>
      obtain ⟨out', rfl, hout, rfl⟩ | ⟨e, _, _, hout, _⟩ := lowerModule_cases hrun
      · rw [h] at hout
        cases hout
        rfl
      · rw [h] at hout
        cases hout

theorem run_of_module_error {m : ModuleId} {e : Failure} {out : EmissionState}
    (h : Emission.module (p.module m) ⟨p, s.target, m⟩ s.emissionState = (.error e, out)) :
    (lowerModule p m).run s = (.error e, ⟨s.target, s.tables, out.header.rewind s.header.mark,
      out.body.rewind s.body.mark⟩) := by
  cases hrun : (lowerModule p m).run s with
  | mk result s' =>
      obtain ⟨_, _, hout, _⟩ | ⟨_, out', rfl, hout, rfl⟩ := lowerModule_cases hrun
      · rw [h] at hout
        cases hout
      · rw [h] at hout
        cases hout
        rfl

end

theorem eq_of_lowerModule_error {p : Program} {m : ModuleId} {s s' : Session} {e : Failure}
    (hs : s.AtMargin) (hrun : (lowerModule p m).run s = (.error e, s')) : s' = s := by
  obtain ⟨out, hok, _, _⟩ | ⟨_, out, _, hout, rfl⟩ := lowerModule_cases hrun
  · cases hok
  · obtain ⟨hheader, hbody⟩ := (growth_frame.within_module _).failed hout
    have restoredHeader : out.header.rewind s.header.mark = s.header :=
      Text.Writer.rewind_of_extends hheader hs.1
    have restoredBody : out.body.rewind s.body.mark = s.body :=
      Text.Writer.rewind_of_extends hbody hs.2
    rw [restoredHeader, restoredBody]

theorem atMargin_lowerModule (p : Program) (m : ModuleId) {s : Session} (hs : s.AtMargin) :
    ((lowerModule p m).run s).2.AtMargin := by
  cases hrun : (lowerModule p m).run s with
  | mk result s' =>
      obtain ⟨out, rfl, hout, rfl⟩ | ⟨e, _, rfl, _, _⟩ := lowerModule_cases hrun
      · obtain ⟨hheader, hbody⟩ := ((growth_frame.within_module _).done hout).2
        exact ⟨hheader.trans hs.1, hbody.trans hs.2⟩
      · rw [eq_of_lowerModule_error hs hrun]
        exact hs

theorem run_bind {α β : Type} (x : ExceptT Failure (StateM Session) α)
    (f : α → ExceptT Failure (StateM Session) β) (s : Session) :
    (x >>= f).run s = match x.run s with
      | (.ok a, s') => (f a).run s'
      | (.error e, s') => (.error e, s') := by
  simp only [bind, ExceptT.bind, ExceptT.run, ExceptT.mk, StateT.bind]
  rcases x s with ⟨_ | _, _⟩ <;> rfl

theorem atMargin_forM (p : Program) (ms : List ModuleId) {s : Session} (hs : s.AtMargin) :
    ((ms.forM (lowerModule p)).run s).2.AtMargin := by
  rw [List.forM_eq_forM]
  induction ms generalizing s with
  | nil => exact hs
  | cons m rest ih =>
      have step := atMargin_lowerModule p m hs
      rw [List.forM_cons, run_bind]
      cases hrun : (lowerModule p m).run s with
      | mk result s' =>
          rw [hrun] at step
          cases result with
          | error e => exact step
          | ok u => exact ih step

/-- Lowering modules only adds to the body. -/
theorem body_extends_forM (p : Program) (ms : List ModuleId) {s : Session} (hs : s.AtMargin) :
    s.body.Extends ((ms.forM (lowerModule p)).run s).2.body := by
  rw [List.forM_eq_forM]
  induction ms generalizing s with
  | nil => exact .refl _
  | cons m rest ih =>
      have margin := atMargin_lowerModule p m hs
      rw [List.forM_cons, run_bind]
      cases hrun : (lowerModule p m).run s with
      | mk result s' =>
          rw [hrun] at margin
          obtain ⟨out, rfl, hout, rfl⟩ | ⟨e, _, rfl, _, _⟩ := lowerModule_cases hrun
          · exact ((growth_frame.within_module _).done hout).1.2.trans (ih margin)
          · rw [eq_of_lowerModule_error hs hrun]
            exact .refl _

/-- One request to a session: to lower a module, or to lower all of them in order. -/
inductive Step where
  | module (m : ModuleId)
  | all

/-- What a step gives back: its result, the text that it added to each output, and the entry
routines known after it. -/
structure Answer where
  result : Except Failure Unit
  header : String
  body : String
  entries : List EntryRoutine

section
variable (p : Program)

def Step.run : Step → ExceptT Failure (StateM Session) Unit
  | .module m => lowerModule p m
  | .all => lowerAll p

def next (s : Session) (step : Step) : Session := ((step.run p).run s).2

def answer (s : Session) (step : Step) : Answer where
  result := ((step.run p).run s).1
  header := (s.next p step).header.textSince s.header.mark
  body := (s.next p step).body.textSince s.body.mark
  entries := (s.next p step).tables.entries

def after (s : Session) (steps : List Step) : Session := steps.foldl (next p) s

def history (s : Session) : List Step → List (Step × Answer)
  | [] => []
  | step :: rest => (step, s.answer p step) :: history (s.next p step) rest

def isFailedModule : Step × Answer → Bool
  | (.module _, answer) => !answer.result.isOk
  | (.all, _) => false

theorem atMargin_next {s : Session} (hs : s.AtMargin) (step : Step) : (s.next p step).AtMargin := by
  cases step with
  | module m => exact atMargin_lowerModule p m hs
  | all => exact atMargin_forM p p.moduleIds hs

theorem atMargin_after {s : Session} (hs : s.AtMargin) (steps : List Step) :
    (s.after p steps).AtMargin := by
  induction steps generalizing s with
  | nil => exact hs
  | cons step rest ih => exact ih (atMargin_next p hs step)

/-- What a program adds to the body comes after the preamble. -/
theorem text_lowerAll {s : Session} (hs : s.AtMargin) :
    ((lowerAll p).run s).2.body.text = s.body.text ++ (s.answer p .all).body := by
  obtain ⟨pieces, hpieces⟩ := body_extends_forM p p.moduleIds hs
  change ((lowerAll p).run s).2.body.pieces = _ at hpieces
  change _ = _ ++ Text.Writer.joined (((lowerAll p).run s).2.body.pieces.extract
    s.body.pieces.size ((lowerAll p).run s).2.body.pieces.size)
  rw [Text.Writer.text, Text.Writer.text, hpieces, Text.Writer.joined_append]
  simp

theorem next_of_isFailedModule {s : Session} (hs : s.AtMargin) {step : Step}
    (hfailed : isFailedModule (step, s.answer p step)) : s.next p step = s := by
  cases step with
  | all => simp [isFailedModule] at hfailed
  | module m =>
      cases hrun : (lowerModule p m).run s with
      | mk result s' =>
          cases result with
          | ok u =>
              simp [isFailedModule, answer, Step.run, hrun, Except.isOk, Except.toBool] at hfailed
          | error e =>
              have restored := eq_of_lowerModule_error hs hrun
              simp only [next, Step.run, hrun, restored]

/-- Without its failed modules a history answers the remaining steps as before and ends in the same
session. -/
theorem history_without_failed {s : Session} (hs : s.AtMargin) (steps : List Step) :
    let kept := (s.history p steps).filter (!isFailedModule ·)
    s.history p (kept.map Prod.fst) = kept ∧
      s.after p (kept.map Prod.fst) = s.after p steps := by
  induction steps generalizing s with
  | nil => exact ⟨rfl, rfl⟩
  | cons step rest ih =>
      cases hfailed : isFailedModule (step, s.answer p step) with
      | true =>
          have same : s.next p step = s := next_of_isFailedModule p hs hfailed
          simpa [history, after, hfailed, same] using ih hs
      | false =>
          have later := ih (atMargin_next p hs step)
          simp only [history, after, List.filter_cons, hfailed, Bool.not_false, if_true,
            List.map_cons, List.foldl_cons]
          exact ⟨congrArg _ later.1, later.2⟩

/-- Whatever was asked of a session, a module that fails gives it back as it was, and the failed
modules of a history can be left out. -/
theorem failed_modules_leave_no_trace (target : Target) (steps : List Step) :
    (∀ m e s', (lowerModule p m).run ((new target).after p steps) = (.error e, s') →
      s' = (new target).after p steps) ∧
    (let kept := ((new target).history p steps).filter (!isFailedModule ·)
    (new target).history p (kept.map Prod.fst) = kept ∧
      (new target).after p (kept.map Prod.fst) = (new target).after p steps) := by
  constructor
  · intro m e s' hrun
    exact eq_of_lowerModule_error (atMargin_after p (atMargin_new target) steps) hrun
  · exact history_without_failed p (atMargin_new target) steps

end

def brokenProgram : Program where
  symbols := #[⟨"f", some ⟨0⟩, .fn [] .void⟩, ⟨"g", some ⟨1⟩, .fn [] .void⟩]
  modules := #[⟨"first", "", [], [], [⟨⟨0⟩, []⟩]⟩, ⟨"second", "", [], [],
    [⟨⟨1⟩, [.branch (.literal (.scalar .bool) (.scalar (.bool true)))
      [.eval (.call .void .computed [])] []]⟩]⟩]

theorem broken_module_leaves_no_trace :
    (lowerModule brokenProgram ⟨1⟩).run ((new .standard).after brokenProgram [.module ⟨0⟩]) =
      (.error (.unsupported .computedCallee),
        (new .standard).after brokenProgram [.module ⟨0⟩]) := by
  have failed : ((lowerModule brokenProgram ⟨1⟩).run
      ((new .standard).after brokenProgram [.module ⟨0⟩])).1 =
        .error (.unsupported .computedCallee) := rfl
  have restored := (failed_modules_leave_no_trace brokenProgram .standard [.module ⟨0⟩]).1
    ⟨1⟩ _ _ (Prod.ext failed rfl)
  exact Prod.ext failed restored

end Session
end ColorLowering
