import ColorLowering.Proofs.Session.Rollback

/-!
# Sessions and the modules lowered in them

A session is reached by lowering modules one at a time, in any order. The modules that were lowered
are listed as often as they succeeded; one that fails leaves the session as it was.
-/
namespace ColorLowering
namespace Session

/-- The session `s` has lowered the modules `done`, in this order, whatever failed between them. -/
inductive Reached (p : Program) (target : Target) : List ModuleId → Session → Prop
  | new : Reached p target [] (new target)
  | lowered {done : List ModuleId} {s s' : Session} {m : ModuleId} : Reached p target done s →
      (lowerModule p m).run s = (.ok (), s') → Reached p target (done ++ [m]) s'
  | failed {done : List ModuleId} {s s' : Session} {m : ModuleId} {e : Failure} :
      Reached p target done s → (lowerModule p m).run s = (.error e, s') → Reached p target done s'

/-- Those of `ms` that are lowered when they are asked for in order, up to the first failure. -/
def loweredOf (p : Program) (s : Session) : List ModuleId → List ModuleId
  | [] => []
  | m :: rest =>
    match (lowerModule p m).run s with
    | (.ok (), s') => m :: loweredOf p s' rest
    | (.error _, _) => []

def Step.modules (p : Program) : Step → List ModuleId
  | .module m => [m]
  | .all => p.moduleIds

def loweredBy (p : Program) (s : Session) : List Step → List ModuleId
  | [] => []
  | step :: rest => loweredOf p s (step.modules p) ++ loweredBy p (s.next p step) rest

theorem eq_ok_of_fst {x : Except Failure Unit × Session} (h : x.1 = .ok ()) : x = (.ok (), x.2) :=
  Prod.ext h rfl

namespace Reached

variable {p : Program} {target : Target} {done : List ModuleId} {s : Session}

theorem atMargin (hs : Reached p target done s) : s.AtMargin := by
  induction hs with
  | new => exact atMargin_new target
  | @lowered done s s' m _ hrun ih =>
      have h := atMargin_lowerModule p m ih
      rwa [hrun] at h
  | failed _ hrun ih =>
      rw [eq_of_lowerModule_error ih hrun]
      exact ih

theorem forM (hs : Reached p target done s) (ms : List ModuleId) :
    Reached p target (done ++ loweredOf p s ms) ((ms.forM (lowerModule p)).run s).2 := by
  rw [List.forM_eq_forM]
  induction ms generalizing done s with
  | nil =>
      rw [loweredOf, List.append_nil]
      exact hs
  | cons m rest ih =>
      rw [List.forM_cons, run_bind, loweredOf]
      cases hrun : (lowerModule p m).run s with
      | mk result s' =>
          cases result with
          | error e => simpa using hs.failed hrun
          | ok u =>
              have later := ih (hs.lowered hrun)
              rwa [List.append_assoc, List.singleton_append] at later

theorem next (hs : Reached p target done s) (step : Step) :
    Reached p target (done ++ loweredOf p s (step.modules p)) (s.next p step) := by
  cases step with
  | all => exact hs.forM p.moduleIds
  | module m =>
      have one := hs.forM [m]
      have same : (([m].forM (lowerModule p)).run s).2 = s.next p (.module m) := by
        rw [List.forM_eq_forM, List.forM_cons, run_bind]
        change _ = ((lowerModule p m).run s).2
        cases (lowerModule p m).run s with
        | mk result s' => cases result <;> rfl
      rwa [same] at one

/-- Every history leads to a session that has lowered the modules that it lowers. -/
theorem after (hs : Reached p target done s) (steps : List Step) :
    Reached p target (done ++ loweredBy p s steps) (s.after p steps) := by
  induction steps generalizing done s with
  | nil =>
      rw [loweredBy, List.append_nil]
      exact hs
  | cons step rest ih =>
      have later := ih (hs.next step)
      rwa [List.append_assoc] at later

theorem target_eq (hs : Reached p target done s) : s.target = target := by
  induction hs with
  | new => rfl
  | lowered _ hrun ih =>
      obtain ⟨out, -, -, rfl⟩ | ⟨_, _, herror, -, -⟩ := lowerModule_cases hrun
      · exact ih
      · cases herror
  | failed hs hrun ih =>
      rw [eq_of_lowerModule_error hs.atMargin hrun]
      exact ih

/-- What holds of empty tables and is kept by every module that is lowered holds of the tables of
every session. -/
theorem tables_of {P : List ModuleId → Tables → Prop} (hs : Reached p target done s)
    (empty : P [] .empty)
    (lowered : ∀ {done : List ModuleId} {m : ModuleId} {u v : EmissionState}, P done u.tables →
      Emission.module (p.module m) ⟨p, target, m⟩ u = (.ok (), v) → P (done ++ [m]) v.tables) :
    P done s.tables := by
  induction hs with
  | new => exact empty
  | @lowered done s s' m hs hrun ih =>
      obtain ⟨out, -, hout, rfl⟩ | ⟨_, _, hfailed, -, -⟩ := lowerModule_cases hrun
      · rw [hs.target_eq] at hout
        exact lowered ih hout
      · cases hfailed
  | failed hs hrun ih =>
      rw [eq_of_lowerModule_error hs.atMargin hrun]
      exact ih

/-- Only the modules that were lowered make a difference. -/
theorem eq_after (hs : Reached p target done s) :
    s = (Session.new target).after p (done.map Step.module) := by
  induction hs with
  | new => rfl
  | @lowered done s s' m _ hrun ih =>
      have last : s' = s.next p (.module m) := (congrArg Prod.snd hrun).symm
      rw [last, ih, Session.after, Session.after, List.map_append, List.foldl_append]
      rfl
  | failed hs hrun ih =>
      rw [eq_of_lowerModule_error hs.atMargin hrun]
      exact ih

theorem unique {s' : Session} (hs : Reached p target done s) (hs' : Reached p target done s') :
    s = s' :=
  hs.eq_after.trans hs'.eq_after.symm

/-- A session was reached by way of every earlier one. -/
theorem exists_before {before later : List ModuleId} (hs : Reached p target (before ++ later) s) :
    ∃ first, Reached p target before first := by
  generalize hdone : before ++ later = done at hs
  induction hs generalizing later with
  | new =>
      obtain ⟨rfl, -⟩ := List.append_eq_nil_iff.mp hdone
      exact ⟨_, .new⟩
  | @lowered done s s' m hs hrun ih =>
      rcases later.eq_nil_or_concat with rfl | ⟨rest, last, rfl⟩
      · rw [List.append_nil] at hdone
        subst hdone
        exact ⟨s', hs.lowered hrun⟩
      · rw [List.concat_eq_append, ← List.append_assoc] at hdone
        exact ih (List.append_inj_left' hdone rfl)
  | failed _ _ ih => exact ih hdone

end Reached
end Session
end ColorLowering
