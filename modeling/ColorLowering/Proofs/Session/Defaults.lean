import ColorLowering.Proofs.Defaults.Recorded
import ColorLowering.Proofs.Session.Rollback

/-!
# Sessions that keep no default texts

A session that renders every default anew wherever an argument is omitted is the measure for one
that keeps the texts of defaults. Where each module shares its defaults the two cannot be told
apart, and the text recorded for a placeholder is fully qualified whatever calls came before. Where
a default that names a function of its module is filled in for the module and then for a
placeholder, the placeholder gets the bare name.
-/
namespace ColorLowering
namespace Session

/-- The session with no texts of defaults kept, now or later. -/
def anew (s : Session) : Session :=
  { s with tables := { s.tables with defaultTexts := .unkept } }

def lowered (p : Program) (s : Session) : Except Failure LoweredCode :=
  match (lowerAll p).run s with
  | (.ok (), s') => .ok s'.code
  | (.error e, _) => .error e

theorem lower_eq (p : Program) (target : Target) : lower p target = (new target).lowered p := rfl

end Session

/-- The whole program, with every default rendered anew wherever it is filled in. -/
def lowerAnew (p : Program) (target : Target) : Except Failure LoweredCode :=
  (Session.new target).anew.lowered p

namespace Session

variable {p : Program} {target : Target} {done : List ModuleId} {s : Session}

/-- A module that shares its defaults is lowered alike in both sessions. -/
theorem lowerModule_anew {m : ModuleId} (hp : p.SharesDefaults m) (hm : m ∉ done)
    (hs : s.tables.defaultTexts.KeptFor done) :
    let run := (lowerModule p m).run s
    (lowerModule p m).run s.anew = (run.1, run.2.anew) ∧
      run.2.target = s.target ∧
      (run.1 = .ok () → run.2.tables.defaultTexts.KeptFor (done ++ [m])) ∧
      ∀ symbol text, run.2.tables.known.defaults.get? symbol = some text →
        s.tables.known.defaults.get? symbol = some text ∨
          Emission.Records ⟨p, s.target, m⟩ s.emissionState symbol text := by
  obtain ⟨hanew, hends⟩ :=
    @Emission.transparent_module ⟨p, s.target, m⟩ done hp hm s.emissionState hs
  dsimp only at hanew hends
  cases hrun : (lowerModule p m).run s with
  | mk result s' =>
      obtain ⟨out, rfl, hout, rfl⟩ | ⟨e, out, rfl, hout, rfl⟩ := lowerModule_cases hrun
      · have other : (lowerModule p m).run s.anew =
            (.ok (), ⟨s.target, out.anew.tables, out.anew.header, out.anew.body⟩) :=
          run_of_module_ok (hanew.trans (by rw [hout]))
        exact ⟨other, rfl, fun _ => hends () out hout, fun symbol text h =>
          @Emission.records_of_module ⟨p, s.target, m⟩ s.emissionState out done hp hm hs hout _ _ h⟩
      · have other : (lowerModule p m).run s.anew = (.error e, ⟨s.target, s.anew.tables,
            out.anew.header.rewind s.header.mark, out.anew.body.rewind s.body.mark⟩) :=
          run_of_module_error (hanew.trans (by rw [hout]))
        exact ⟨other, rfl, fun h => (by cases h), fun _ _ => .inl⟩

/-- Modules lowered one after the other, each for the first time, are lowered alike in both. What is
recorded for a placeholder is recorded by one of them, after those before it. -/
theorem forM_anew {ms : List ModuleId} (hp : ∀ m ∈ ms, p.SharesDefaults m)
    (hms : (done ++ ms).Nodup) (hs : s.tables.defaultTexts.KeptFor done) :
    let run := (ms.forM (lowerModule p)).run s
    (ms.forM (lowerModule p)).run s.anew = (run.1, run.2.anew) ∧
      ∀ symbol text, run.2.tables.known.defaults.get? symbol = some text →
        s.tables.known.defaults.get? symbol = some text ∨
          ∃ earlier m later first, ms = earlier ++ m :: later ∧
            (earlier.forM (lowerModule p)).run s = (.ok (), first) ∧
            Emission.Records ⟨p, s.target, m⟩ first.emissionState symbol text := by
  simp only [List.forM_eq_forM]
  induction ms generalizing done s with
  | nil => exact ⟨rfl, fun _ _ h => .inl h⟩
  | cons m rest ih =>
      have hm : m ∉ done := by
        rw [List.nodup_append] at hms
        exact fun h => hms.2.2 m h m List.mem_cons_self rfl
      obtain ⟨hanew, htarget, hok, hrecorded⟩ := lowerModule_anew (hp m List.mem_cons_self) hm hs
      simp only [List.forM_cons, run_bind, hanew]
      have here (symbol : SymbolId) (text : String)
          (h : s.tables.known.defaults.get? symbol = some text ∨
            Emission.Records ⟨p, s.target, m⟩ s.emissionState symbol text) :
          s.tables.known.defaults.get? symbol = some text ∨
            ∃ earlier n later first, m :: rest = earlier ++ n :: later ∧
              (earlier.forM (lowerModule p)).run s = (.ok (), first) ∧
              Emission.Records ⟨p, s.target, n⟩ first.emissionState symbol text :=
        h.imp_right fun hrecords => ⟨[], m, rest, s, rfl, rfl, hrecords⟩
      cases hrun : (lowerModule p m).run s with
      | mk result s' =>
          rw [hrun] at htarget hok hrecorded
          cases result with
          | error e => exact ⟨rfl, fun symbol text h => here symbol text (hrecorded symbol text h)⟩
          | ok u =>
              obtain ⟨hsame, hlater⟩ := ih (fun m' h => hp m' (List.mem_cons_of_mem m h))
                (by rwa [List.append_assoc]) (hok rfl)
              refine ⟨hsame, fun symbol text h => ?_⟩
              obtain hbefore | ⟨earlier, n, later, first, rfl, hearlier, hrecords⟩ :=
                hlater symbol text h
              · exact here symbol text (hrecorded symbol text hbefore)
              · refine .inr ⟨m :: earlier, n, later, first, rfl, ?_, htarget ▸ hrecords⟩
                rw [List.forM_cons, run_bind, hrun]
                exact hearlier

theorem nodup_moduleIds (p : Program) : p.moduleIds.Nodup :=
  List.nodup_range.map fun _ _ h => congrArg ModuleId.index h

/-- The text that the placeholder gets while the program is lowered, by the module that the session
has come to after those before it. -/
def Records (p : Program) (target : Target) (symbol : SymbolId) (text : String) : Prop :=
  ∃ earlier m later s, p.moduleIds = earlier ++ m :: later ∧
    (earlier.forM (lowerModule p)).run (new target) = (.ok (), s) ∧
    Emission.Records ⟨p, target, m⟩ s.emissionState symbol text

/-- Where every module shares its defaults, keeping their texts makes no difference: a program fails
with the same failure or has the same code, and the same is known of each symbol. Each text recorded
for a placeholder is its initializer, rendered for any module with no text of a default kept. -/
theorem defaults_kept_or_anew (hp : ∀ m ∈ p.moduleIds, p.SharesDefaults m) :
    lower p target = lowerAnew p target ∧
      ((lowerAll p).run (new target)).2.tables.known =
        ((lowerAll p).run (new target).anew).2.tables.known ∧
      ∀ symbol text,
        ((lowerAll p).run (new target)).2.tables.known.defaults.get? symbol = some text →
          Records p target symbol text := by
  obtain ⟨hanew, hrecorded⟩ := @forM_anew p [] (new target) p.moduleIds hp (nodup_moduleIds p)
    (fun _ _ _ h => by cases h)
  refine ⟨?_, ?_, fun symbol text h => (hrecorded symbol text h).resolve_left (fun h => by cases h)⟩
  · rw [lower_eq]
    unfold lowerAnew lowered lowerAll
    rw [hanew]
    rcases (p.moduleIds.forM (lowerModule p)).run (new target) with ⟨_ | _, _⟩ <;> rfl
  · unfold lowerAll
    rw [hanew]
    rfl

/-- A program that has the same code with its defaults rendered anew adds the same to the body. -/
theorem answer_body_of_lower_eq (hcode : lower p target = lowerAnew p target)
    (hok : ((lowerAll p).run (new target)).1.isOk) :
    ((new target).answer p .all).body = ((new target).anew.answer p .all).body := by
  have kept := text_lowerAll p (atMargin_new target)
  have anew := @text_lowerAll p (new target).anew (atMargin_new target)
  rw [lower_eq, lowerAnew, lowered, lowered] at hcode
  cases hkept : (lowerAll p).run (new target) with
  | mk result s =>
      rw [hkept] at hok hcode kept
      cases result with
      | error e => cases hok
      | ok u =>
          cases hanew : (lowerAll p).run (new target).anew with
          | mk other s' =>
              rw [hanew] at hcode anew
              cases other with
              | error e => cases hcode
              | ok u =>
                  have bodies : s.body.text = s'.body.text :=
                    congrArg LoweredCode.body (Except.ok.inj hcode)
                  rw [kept, anew] at bodies
                  exact (String.append_right_inj _).mp bodies

def callOfG : Expr := .call (.scalar .int) (.function ⟨0⟩ []) []

def callOfF : Expr :=
  .call (.scalar .int) (.function ⟨1⟩ [.optional "p" (.scalar .int) ⟨1⟩ callOfG]) []

def negated : Expr := .unary (.scalar .int) .neg (.name (.scalar .int) ⟨2⟩)

def callOfU : Expr :=
  .call (.scalar .int) (.function ⟨3⟩ [.optional "r" (.scalar .int) ⟨2⟩ negated]) []

/-- Two constants fill in `g()`; a placeholder and the body of a function fill in the negation of a
literal. -/
def sharingProgram : Program where
  symbols := #[⟨"g", some ⟨0⟩, .fn [] (.scalar .int)⟩,
    ⟨"f", some ⟨0⟩, .fn [⟨"p", .scalar .int, .read⟩] (.scalar .int)⟩,
    ⟨"k", some ⟨0⟩, .var (.scalar .int) false⟩,
    ⟨"u", some ⟨0⟩, .fn [⟨"r", .scalar .int, .read⟩] (.scalar .int)⟩,
    ⟨"x", some ⟨0⟩, .var (.scalar .int) false⟩, ⟨"y", some ⟨0⟩, .var (.scalar .int) false⟩,
    ⟨"w$q", some ⟨0⟩, .var (.scalar .int) false⟩, ⟨"w", some ⟨0⟩, .fn [] (.scalar .int)⟩]
  modules := #[⟨"m", "m.ctl", [],
    [⟨⟨2⟩, some (.literal (.scalar .int) (.scalar (.int 3)))⟩, ⟨⟨4⟩, some callOfF⟩,
      ⟨⟨5⟩, some callOfF⟩, ⟨⟨6⟩, some callOfU⟩],
    [⟨⟨0⟩, []⟩, ⟨⟨1⟩, []⟩, ⟨⟨3⟩, []⟩, ⟨⟨7⟩, [.ret (some callOfU)]⟩]⟩]

theorem fills_callOfF {ty : Ty} {id : ExprId} {default : Expr}
    (h : callOfF.Fills ty id default) : ty = .scalar .int ∧ id = ⟨1⟩ ∧ default = callOfG := by
  obtain ⟨-, param, hslot⟩ := h
  simp only [callOfF, callOfG, Expr.filled, Expr.filledAll, Expr.filledAfter, List.length_nil,
    List.nil_append, List.append_nil, List.mem_singleton, Slot.optional.injEq] at hslot
  exact hslot.2

theorem fills_callOfU {ty : Ty} {id : ExprId} {default : Expr}
    (h : callOfU.Fills ty id default) : ty = .scalar .int ∧ id = ⟨2⟩ ∧ default = negated := by
  obtain ⟨-, param, hslot⟩ := h
  simp only [callOfU, negated, Expr.filled, Expr.filledAll, Expr.filledAfter, List.length_nil,
    List.nil_append, List.append_nil, List.mem_singleton, Slot.optional.injEq] at hslot
  exact hslot.2

theorem rendersAt_sharingProgram {portable : Bool} {e : Expr}
    (h : sharingProgram.RendersAt ⟨0⟩ portable e) :
    e = callOfF ∧ portable = false ∨ e = callOfU ∨ e.filled = [] := by
  cases h with
  | @constant c init hc hinit =>
      have listed : c = ⟨⟨2⟩, some (.literal (.scalar .int) (.scalar (.int 3)))⟩ ∨
          c = ⟨⟨4⟩, some callOfF⟩ ∨ c = ⟨⟨5⟩, some callOfF⟩ ∨ c = ⟨⟨6⟩, some callOfU⟩ := by
        simpa [sharingProgram, Program.module] using hc
      rcases listed with rfl | rfl | rfl | rfl <;> cases hinit
      · exact .inr (.inr rfl)
      · exact .inl ⟨rfl, rfl⟩
      · exact .inl ⟨rfl, rfl⟩
      · exact .inr (.inl rfl)
  | @body f e hf he =>
      have listed : f = ⟨⟨0⟩, []⟩ ∨ f = ⟨⟨1⟩, []⟩ ∨ f = ⟨⟨3⟩, []⟩ ∨
          f = ⟨⟨7⟩, [.ret (some callOfU)]⟩ := by
        simpa [sharingProgram, Program.module] using hf
      rcases listed with rfl | rfl | rfl | rfl
      · cases he
      · cases he
      · cases he
      · exact .inr (.inl (List.mem_singleton.mp he))

theorem sharesDefaults_sharingProgram : sharingProgram.SharesDefaults ⟨0⟩ := by
  have fillsAt : ∀ {portable ty id default}, sharingProgram.FillsAt ⟨0⟩ portable ty id default →
      ty = .scalar .int ∧ (portable = false ∧ id = ⟨1⟩ ∧ default = callOfG ∨
        id = ⟨2⟩ ∧ default = negated) := by
    rintro portable ty id default ⟨e, hplace, hfills⟩
    obtain ⟨rfl, rfl⟩ | rfl | hnone := rendersAt_sharingProgram hplace
    · obtain ⟨hty, hid, hdefault⟩ := fills_callOfF hfills
      exact ⟨hty, .inl ⟨rfl, hid, hdefault⟩⟩
    · obtain ⟨hty, hid, hdefault⟩ := fills_callOfU hfills
      exact ⟨hty, .inr ⟨hid, hdefault⟩⟩
    · obtain ⟨-, param, hslot⟩ := hfills
      rw [hnone] at hslot
      cases hslot
  constructor
  · intro portable portable' ty ty' id default default' h h'
    obtain ⟨rfl, ⟨-, rfl, rfl⟩ | ⟨rfl, rfl⟩⟩ := fillsAt h
    · obtain ⟨rfl, ⟨-, -, rfl⟩ | ⟨hid, -⟩⟩ := fillsAt h'
      · exact ⟨rfl, rfl⟩
      · cases hid
    · obtain ⟨rfl, ⟨-, hid, -⟩ | ⟨-, rfl⟩⟩ := fillsAt h'
      · cases hid
      · exact ⟨rfl, rfl⟩
  · intro ty id default h _ symbol hsymbol _
    obtain ⟨-, ⟨hportable, -⟩ | ⟨-, rfl⟩⟩ := fillsAt h
    · cases hportable
    · obtain rfl := List.mem_singleton.mp hsymbol
      exact ⟨_, .head _, rfl, rfl⟩
  · intro before c after init ty id default hcs hinit hfills symbol hsymbol d hd
    have listed : c ∈ (sharingProgram.module ⟨0⟩).constants := by simp [hcs]
    have refers : symbol = ⟨0⟩ ∨ symbol = ⟨2⟩ := by
      obtain ⟨-, ⟨-, -, rfl⟩ | ⟨-, rfl⟩⟩ := fillsAt ⟨init, .constant listed hinit, hfills⟩
      · exact .inl (List.mem_singleton.mp hsymbol)
      · exact .inr (List.mem_singleton.mp hsymbol)
    cases before with
    | nil =>
        cases hcs
        cases hinit
        cases hfills.2.choose_spec
    | cons first before =>
        have later : d ∈ (sharingProgram.module ⟨0⟩).constants.tail := by
          rw [hcs]
          exact List.mem_append_right before hd
        have listed : d = ⟨⟨4⟩, some callOfF⟩ ∨ d = ⟨⟨5⟩, some callOfF⟩ ∨
            d = ⟨⟨6⟩, some callOfU⟩ := by
          simpa [sharingProgram, Program.module] using later
        rcases listed with rfl | rfl | rfl <;> rcases refers with rfl | rfl <;> simp

/-- The second constant and the second place of the negation get kept texts, and the placeholder is
recorded fully qualified. -/
theorem shared_defaults_kept :
    let kept := (lowerAll sharingProgram).run (new .standard)
    kept.1.isOk ∧ kept.2.tables.defaultTexts.get? (⟨1⟩, ⟨0⟩) = some "g()" ∧
      kept.2.tables.defaultTexts.get? (⟨2⟩, ⟨0⟩) = some "-3" ∧
      lower sharingProgram .standard = lowerAnew sharingProgram .standard ∧
      Records sharingProgram .standard ⟨6⟩ "m::u( -3 )" := by
  have shares : ∀ m ∈ sharingProgram.moduleIds, sharingProgram.SharesDefaults m := by
    intro m hm
    obtain rfl : m = ⟨0⟩ := by simpa [Program.moduleIds, sharingProgram] using hm
    exact sharesDefaults_sharingProgram
  obtain ⟨hlower, -, hrecorded⟩ := @defaults_kept_or_anew sharingProgram .standard shares
  exact ⟨by decide +kernel, by decide +kernel, by decide +kernel, hlower,
    hrecorded ⟨6⟩ _ (by decide +kernel)⟩

/-- Of two calls of `f`, one is for the constant `x` and one for the placeholder `h$q`. A second
module calls `h`, whose parameter has the placeholder for its default. -/
def bareProgram : Program where
  symbols := #[⟨"g", some ⟨0⟩, .fn [] (.scalar .int)⟩,
    ⟨"f", some ⟨0⟩, .fn [⟨"p", .scalar .int, .read⟩] (.scalar .int)⟩,
    ⟨"x", some ⟨0⟩, .var (.scalar .int) false⟩, ⟨"h$q", some ⟨0⟩, .var (.scalar .int) false⟩,
    ⟨"h", some ⟨0⟩, .fn [⟨"q", .scalar .int, .read⟩] (.scalar .int)⟩,
    ⟨"k", some ⟨1⟩, .fn [] (.scalar .int)⟩]
  modules := #[⟨"m", "m.ctl", [], [⟨⟨2⟩, some callOfF⟩, ⟨⟨3⟩, some callOfF⟩],
      [⟨⟨0⟩, []⟩, ⟨⟨1⟩, []⟩, ⟨⟨4⟩, []⟩]⟩,
    ⟨"n", "n.ctl", [], [], [⟨⟨5⟩, [.ret (some (.call (.scalar .int)
      (.function ⟨4⟩ [.optional "q" (.scalar .int) ⟨2⟩ (.name (.scalar .int) ⟨3⟩)]) []))]⟩]⟩]

/-- The text kept for `x` names `g` without its namespace, and the placeholder gets it for use in
the second module. -/
theorem kept_default_not_qualified :
    lower bareProgram .standard ≠ lowerAnew bareProgram .standard ∧
      ((lowerAll bareProgram).run (new .standard)).2.tables.known.defaults.get? ⟨3⟩ =
        some "m::f( g() )" ∧
      ((lowerAll bareProgram).run (new .standard).anew).2.tables.known.defaults.get? ⟨3⟩ =
        some "m::f( m::g() )" := by
  refine ⟨fun h => ?_, by decide +kernel, by decide +kernel⟩
  have bodies := answer_body_of_lower_eq h (by decide +kernel)
  exact absurd bodies (by decide +kernel)

end Session
end ColorLowering
