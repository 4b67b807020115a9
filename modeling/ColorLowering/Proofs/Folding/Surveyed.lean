import ColorLowering.Proofs.Folding.Chains

/-!
# Surveys fold constants exactly

What is entered for a constant is exact where what was entered before it is, so it stays exact over
the survey of a module, and nothing that follows the survey changes it. The constants that a chain
is built from are literals by the time that it is looked at.
-/
namespace ColorLowering

namespace Classification

variable {k k' : Classification} {p : Program} {symbol : SymbolId} {s : Scalar}

theorem FoldsExactly.congr (h : k.FoldsExactly p symbol s)
    (hliterals : k'.literals.get? symbol = k.literals.get? symbol)
    (hfolded : k'.folded.get? symbol = k.folded.get? symbol) : k'.FoldsExactly p symbol s where
  isLiteral := by
    have literal := h.isLiteral
    rwa [Table.contains, ← hliterals] at literal
  folds n hn := by
    obtain ⟨value, hvalue, hwhole, htext⟩ := h.folds n hn
    exact ⟨value, hfolded.trans hvalue, hwhole, hliterals.trans htext⟩
  exact value hvalue := h.exact value (hfolded.symm.trans hvalue)

/-- A literal is entered with its exact value and the text of it, or without either. -/
theorem foldsExactly_addLiteral {text : String} {value : Option Value}
    (heval : p.Evaluates (.name (.scalar s) symbol) s value)
    (htext : ∀ v, value = some v → text = v.text)
    (hbefore : value = none → k.folded.get? symbol = none) :
    (k.addLiteral symbol text value).FoldsExactly p symbol s := by
  obtain ⟨exact, hexact, hsame⟩ := heval
  cases hsame with
  | none =>
      refine ⟨by simp [addLiteral], fun n hn => ?_, fun value hvalue => ?_⟩
      · cases (hexact n).mp hn
      · rw [addLiteral, hbefore rfl] at hvalue
        cases hvalue
  | @some v n hwhole =>
      refine ⟨by simp [addLiteral], fun n' hn => ?_, fun value hvalue => ?_⟩
      · obtain rfl := Option.some.inj ((hexact n').mp hn)
        refine ⟨v, by simp [addLiteral], hwhole, ?_⟩
        rw [addLiteral, Table.get?_insert_self, htext v rfl, hwhole.text]
      · rw [addLiteral, Table.get?_insert_self] at hvalue
        obtain rfl := Option.some.inj hvalue
        exact ⟨n, (hexact n).mpr rfl, hwhole⟩

structure Surveyed (k : Classification) (p : Program) (planned : List Constant) : Prop where
  /-- Only literals are folded. -/
  folded : ∀ symbol, k.folded.contains symbol → k.literals.contains symbol
  sound : k.Sound p
  /-- The chains among them are literals. -/
  present : ∀ before c after init s t, planned = before ++ c :: after → c.init = some init →
    p.Initializes c.symbol init → p.Chained before init t → (p.symbol c.symbol).ty = .scalar s →
    s.isWhole → k.literals.contains c.symbol

theorem surveyed_empty (p : Program) : empty.Surveyed p [] where
  folded _ h := h
  sound _ _ _ _ _ _ _ _ _ h := by cases h
  present before c after _ _ _ h := by simp at h

theorem Surveyed.congr {planned : List Constant} (h : k.Surveyed p planned)
    (hliterals : k'.literals = k.literals) (hfolded : k'.folded = k.folded) :
    k'.Surveyed p planned where
  folded := by
    rw [hliterals, hfolded]
    exact h.folded
  sound symbol init planned s t hinit hchain hty hs hliteral := by
    rw [hliterals] at hliteral
    exact (h.sound symbol init planned s t hinit hchain hty hs hliteral).congr
      (by rw [hliterals]) (by rw [hfolded])
  present := by
    rw [hliterals]
    exact h.present

end Classification

theorem Program.Chained.isLiteral {p : Program} {k : Classification} {planned : List Constant}
    {e : Expr} {s : Scalar} (h : p.Chained planned e s) (hk : k.Surveyed p planned) :
    e.isLiteral k.literals := by
  induction h with
  | literal _ => rfl
  | name hplanned hinit honly hchain hty hs _ =>
      exact hk.present _ _ _ _ _ _ hplanned hinit honly hchain hty hs
  | unary _ ih => exact ih hk
  | binary _ _ _ _ ihl ihr => exact Bool.and_eq_true_iff.mpr ⟨ihl hk, ihr hk⟩

namespace Emission

open Classification

variable {ctx : ModuleContext} {c : Constant} {u v : EmissionState} {planned : List Constant}

/-- A constant that is looked at is entered as a literal, or it is no literal and changes none. -/
theorem Surveys.enters (h : Surveys ctx c u v) :
    (v.tables.known.literals = u.tables.known.literals ∧
      v.tables.known.folded = u.tables.known.folded ∧
      ∀ init, c.init = some init →
        (!init.isAggregate && init.isLiteral u.tables.known.literals) = false) ∨
    ∃ init text, c.init = some init ∧ init.isLiteral u.tables.known.literals ∧
      v.tables.known = u.tables.known.addLiteral c.symbol text
        (ctx.folded? u.tables.known c.symbol init) ∧
      ∀ value, ctx.folded? u.tables.known c.symbol init = some value → text = value.text := by
  cases h with
  | bare hinit => exact .inl ⟨rfl, rfl, fun init h => by rw [hinit] at h; cases h⟩
  | @folded init value hinit _ hliteral hvalue =>
      refine .inr ⟨init, value.text, hinit, hliteral, by rw [hvalue]; rfl, fun value' h => ?_⟩
      rw [hvalue] at h
      cases h
      rfl
  | @verbatim init text _ hinit _ hliteral hvalue _ =>
      refine .inr ⟨init, text, hinit, hliteral, by rw [hvalue]; rfl, fun value' h => ?_⟩
      rw [hvalue] at h
      cases h
  | calling hinit hliteral =>
      refine .inl ⟨rfl, rfl, fun init h => ?_⟩
      rw [hinit] at h
      cases h
      exact hliteral
  | waiting hinit hliteral =>
      refine .inl ⟨rfl, rfl, fun init h => ?_⟩
      rw [hinit] at h
      cases h
      exact hliteral

theorem evaluates_folded? {k : Classification} {symbol : SymbolId} {init : Expr} {s t : Scalar}
    (hk : k.Sound ctx.program) (honly : ctx.program.Initializes symbol init)
    (hchain : ctx.program.Chained planned init t)
    (hty : (ctx.program.symbol symbol).ty = .scalar s) (hs : s.isWhole)
    (hliteral : init.isLiteral k.literals) :
    ctx.program.Evaluates (.name (.scalar s) symbol) s (ctx.folded? k symbol init) := by
  obtain ⟨exact, hexact, hsame⟩ := hchain.evaluates ctx.target.precision hk hliteral
  refine ⟨exact.bind s.number?, fun n => ?_, ?_⟩
  · simp only [Program.exact_name_iff honly, hexact, Option.bind_eq_some_iff]
  · rw [ModuleContext.folded?, hty]
    exact hsame.bind fun value a hvalue => hvalue.convert? ctx.target.precision hs

theorem Surveys.sound (h : Surveys ctx c u v)
    (hlisted : ∃ m, c ∈ (ctx.program.module m).constants)
    (hu : u.tables.known.Surveyed ctx.program planned) : v.tables.known.Sound ctx.program := by
  intro symbol init before s t honly hchain hty hs hliteral
  obtain ⟨hliterals, hfolded, -⟩ | ⟨init', text, hinit, hall, hknown, htext⟩ := h.enters
  · rw [hliterals] at hliteral
    exact (hu.sound symbol init before s t honly hchain hty hs hliteral).congr
      (by rw [hliterals]) (by rw [hfolded])
  rw [hknown] at hliteral ⊢
  by_cases hsymbol : symbol = c.symbol
  · subst hsymbol
    obtain ⟨m, hc⟩ := hlisted
    obtain rfl : init' = init := Option.some.inj (hinit.symm.trans (honly.only m c hc rfl))
    have heval := evaluates_folded? hu.sound honly hchain hty hs hall
    refine foldsExactly_addLiteral heval htext fun hnone => ?_
    -- an older value of the constant would be exact, but there is no exact value
    cases hfolded : u.tables.known.folded.get? c.symbol with
    | none => rfl
    | some value =>
        have already := hu.folded c.symbol (Table.contains_iff.mpr ⟨value, hfolded⟩)
        have known := hu.sound c.symbol init' before s t honly hchain hty hs already
        obtain ⟨n, hn, -⟩ := known.exact value hfolded
        obtain ⟨exact, hexact, hsame⟩ := heval
        rw [hnone, (hexact n).mp hn] at hsame
        cases hsame
  · have before : u.tables.known.literals.contains symbol := by
      simpa [addLiteral, hsymbol] using hliteral
    refine (hu.sound symbol init _ s t honly hchain hty hs before).congr ?_ ?_
    · simp [addLiteral, Table.get?_insert, hsymbol]
    · cases ctx.folded? u.tables.known c.symbol init' with
      | none => rfl
      | some value => simp [addLiteral, Table.get?_insert, hsymbol]

theorem Surveys.surveyed (h : Surveys ctx c u v)
    (hlisted : ∃ m, c ∈ (ctx.program.module m).constants)
    (hu : u.tables.known.Surveyed ctx.program planned) :
    v.tables.known.Surveyed ctx.program (planned ++ [c]) where
  folded symbol hfolded := by
    obtain ⟨hliterals, hsame, -⟩ | ⟨init, text, -, -, hknown, -⟩ := h.enters
    · rw [hliterals]
      rw [hsame] at hfolded
      exact hu.folded symbol hfolded
    · have kept := hu.folded symbol
      rw [hknown] at hfolded ⊢
      generalize ctx.folded? u.tables.known c.symbol init = value at hfolded ⊢
      cases value with
      | none => simp [addLiteral, kept hfolded]
      | some value =>
          simp only [addLiteral, Table.contains_insert, Bool.or_eq_true] at hfolded ⊢
          exact hfolded.imp_right kept
  sound := h.sound hlisted hu
  present before d after init s t hplanned hinit honly hchain hty hs := by
    rcases List.eq_nil_or_concat after with rfl | ⟨between, last, rfl⟩
    · obtain ⟨rfl, hlast⟩ := List.append_inj' hplanned rfl
      obtain rfl : c = d := by simpa using hlast
      obtain ⟨-, -, hcalling⟩ | ⟨_, _, -, -, hknown, -⟩ := h.enters
      · have none := hcalling init hinit
        rw [hchain.isAggregate, hchain.isLiteral hu] at none
        cases none
      · simp [hknown, addLiteral]
    · have hplanned : planned = before ++ d :: between := by
        rw [List.concat_eq_append, ← List.cons_append, ← List.append_assoc] at hplanned
        exact (List.append_inj' hplanned rfl).1
      have already := hu.present before d between init s t hplanned hinit honly hchain hty hs
      obtain ⟨hliterals, -, -⟩ | ⟨_, _, -, -, hknown, -⟩ := h.enters
      · rwa [hliterals]
      · simp [hknown, addLiteral, already]

theorem surveyed_of_surveyConstants {cs : List Constant}
    (hrun : surveyConstants cs ctx u = (.ok (), v))
    (hlisted : ∀ c ∈ cs, ∃ m, c ∈ (ctx.program.module m).constants)
    (hu : u.tables.known.Surveyed ctx.program planned) :
    v.tables.known.Surveyed ctx.program (planned ++ cs) := by
  induction cs generalizing u planned with
  | nil =>
      cases hrun
      rwa [List.append_nil]
  | cons c rest ih =>
      obtain ⟨w, hc, hrest⟩ := surveyConstants_cons_ok hrun
      have first := hc.surveyed (hlisted c List.mem_cons_self) hu
      have all := ih hrest (fun d hd => hlisted d (List.mem_cons_of_mem _ hd)) first
      rwa [List.append_assoc] at all

/-- A module enters its constants, and nothing after its survey changes what is folded. -/
theorem surveyed_of_module {m : ModuleId}
    (hrun : module (ctx.program.module m) ctx u = (.ok (), v))
    (hu : u.tables.known.Surveyed ctx.program planned) :
    v.tables.known.Surveyed ctx.program (planned ++ (ctx.program.module m).constants) := by
  obtain ⟨start, closed, lowered, hheading, hlist, -, hclosed⟩ := module_runs hrun
  obtain ⟨surveyed, hsurvey, hstart⟩ := heading_surveys hheading
  have kept := (literals_frame.within_constantList _).done hlist
  rw [hstart] at kept
  rw [hclosed]
  exact (surveyed_of_surveyConstants hsurvey (fun c hc => ⟨m, hc⟩) hu).congr kept.1 kept.2.1

/-- The survey of a chain does not fail. -/
theorem surveyConstant_runs {init : Expr} {t : Scalar} (hinit : c.init = some init)
    (hchain : ctx.program.Chained planned init t)
    (hu : u.tables.known.Surveyed ctx.program planned) :
    ∃ v, surveyConstant c ctx u = (.ok (), v) := by
  have hliteral := hchain.isLiteral hu
  unfold surveyConstant
  rw [hinit]
  dsimp only
  rw [bind_apply, known_apply]
  dsimp only
  rw [hchain.isAggregate, hliteral, if_pos (by rfl), surveyLiteral_apply]
  cases ctx.folded? u.tables.known c.symbol init with
  | some value => exact ⟨_, rfl⟩
  | none =>
    obtain ⟨text, texts, hrender⟩ := hchain.render_ok (ctx.scope u.tables.known false)
      u.tables.defaultTexts
    dsimp only
    rw [bind_apply, render, rendering_apply, Expr.renderAs, Rendering.bind_apply, hrender]
    exact ⟨_, rfl⟩

end Emission

namespace Session

open Classification

def constantsOf (p : Program) (done : List ModuleId) : List Constant :=
  done.flatMap fun m => (p.module m).constants

theorem Reached.surveyed {p : Program} {target : Target} {done : List ModuleId} {s : Session}
    (hs : Reached p target done s) : s.tables.known.Surveyed p (constantsOf p done) :=
  hs.tables_of (P := fun done tables => tables.known.Surveyed p (constantsOf p done))
    (surveyed_empty p) fun {done m u v} before hrun => by
      have next := @Emission.surveyed_of_module ⟨p, target, m⟩ _ _ _ m hrun before
      rwa [constantsOf, List.flatMap_append, List.flatMap_singleton]

/-- Whatever was lowered before, a constant whose initializer is a chain over the constants surveyed
before it is surveyed without failure and folded exactly, and it stays so over the survey of those
after it. -/
theorem chains_fold_exactly {p : Program} {target : Target} {steps : List Step} {m : ModuleId}
    {before after : List Constant} {c : Constant} {init : Expr} {s t : Scalar}
    (hlisted : (p.module m).constants = before ++ c :: after) (hinit : c.init = some init)
    (honly : p.Initializes c.symbol init)
    (hchain : p.Chained (constantsOf p (loweredBy p (new target) steps) ++ before) init t)
    (hty : (p.symbol c.symbol).ty = .scalar s) (hs : s.isWhole) {u : EmissionState}
    (hbefore : Emission.surveyConstants before ⟨p, target, m⟩
      ((new target).after p steps).emissionState = (.ok (), u)) :
    ∃ v, Emission.surveyConstant c ⟨p, target, m⟩ u = (.ok (), v) ∧
      v.tables.known.FoldsExactly p c.symbol s ∧
      ∀ w, Emission.surveyConstants after ⟨p, target, m⟩ v = (.ok (), w) →
        w.tables.known.FoldsExactly p c.symbol s := by
  have reached : Reached p target [] (new target) := .new
  have start := (reached.after steps).surveyed
  have listed : ∀ d ∈ before ++ c :: after, ∃ m, d ∈ (p.module m).constants :=
    fun d hd => ⟨m, hlisted ▸ hd⟩
  have opened := Emission.surveyed_of_surveyConstants hbefore
    (fun d hd => listed d (List.mem_append_left _ hd)) start
  obtain ⟨v, hc⟩ := Emission.surveyConstant_runs hinit hchain opened
  have entered := (Emission.surveyConstant_ok hc).surveyed (listed c (by simp)) opened
  have literal := entered.present _ c [] init s t rfl hinit honly hchain hty hs
  refine ⟨v, hc, entered.sound _ _ _ _ _ honly hchain hty hs literal, fun w hafter => ?_⟩
  have closed := Emission.surveyed_of_surveyConstants hafter
    (fun d hd => listed d (List.mem_append_right _ (List.mem_cons_of_mem _ hd))) entered
  have kept := closed.present _ c after init s t (by simp) hinit honly hchain hty hs
  exact closed.sound _ _ _ _ _ honly hchain hty hs kept

def limit : Expr := .literal (.scalar .int) (.scalar (.int 2147483647))

def double : Expr := .binary (.scalar .uint) .mul (.scalar .uint) (.name (.scalar .int) ⟨0⟩)
  (.literal (.scalar .int) (.scalar (.int 2)))

def larger : Expr := .binary (.scalar .bool) .gt (.scalar .uint) (.name (.scalar .uint) ⟨1⟩)
  (.name (.scalar .int) ⟨0⟩)

def doublingProgram : Program where
  symbols := #[⟨"limit", some ⟨0⟩, .var (.scalar .int) false⟩,
    ⟨"double", some ⟨1⟩, .var (.scalar .uint) false⟩,
    ⟨"larger", some ⟨1⟩, .var (.scalar .bool) false⟩]
  modules := #[⟨"first", "", [], [⟨⟨0⟩, some limit⟩], []⟩,
    ⟨"second", "", [], [⟨⟨1⟩, some double⟩, ⟨⟨2⟩, some larger⟩], []⟩]

theorem double_is_larger : ∃ u v,
    Emission.surveyConstants [⟨⟨1⟩, some double⟩] ⟨doublingProgram, .standard, ⟨1⟩⟩
      ((new .standard).after doublingProgram [.module ⟨0⟩]).emissionState = (.ok (), u) ∧
    Emission.surveyConstant ⟨⟨2⟩, some larger⟩ ⟨doublingProgram, .standard, ⟨1⟩⟩ u =
      (.ok (), v) ∧
    (∃ value, v.tables.known.folded.get? ⟨2⟩ = some value ∧ value.Whole .bool 1) ∧
    v.tables.known.literals.get? ⟨2⟩ = some "true" := by
  have hlimit : doublingProgram.Initializes ⟨0⟩ limit :=
    ⟨⟨⟨0⟩, _, .head _, rfl⟩, by rintro ⟨_ | _ | n⟩ <;> simp [doublingProgram, Program.module]⟩
  have hdouble : doublingProgram.Initializes ⟨1⟩ double :=
    ⟨⟨⟨1⟩, _, .head _, rfl⟩, by rintro ⟨_ | _ | n⟩ <;> simp [doublingProgram, Program.module]⟩
  have hlarger : doublingProgram.Initializes ⟨2⟩ larger :=
    ⟨⟨⟨1⟩, _, .tail _ (.head _), rfl⟩,
      by rintro ⟨_ | _ | n⟩ <;> simp [doublingProgram, Program.module]⟩
  have lowered : constantsOf doublingProgram
      (loweredBy doublingProgram (new .standard) [.module ⟨0⟩]) = [⟨⟨0⟩, some limit⟩] := rfl
  have chain₀ : doublingProgram.Chained [] limit .int := .literal (.int _)
  have fromLimit (planned : List Constant) :
      doublingProgram.Chained (⟨⟨0⟩, some limit⟩ :: planned) (.name (.scalar .int) ⟨0⟩) .int :=
    .name (List.nil_append _).symm rfl hlimit chain₀ rfl rfl
  have chain₁ : doublingProgram.Chained [⟨⟨0⟩, some limit⟩] double .uint :=
    .binary (fromLimit []) (.literal (.int _)) rfl rfl
  have fromDouble : doublingProgram.Chained [⟨⟨0⟩, some limit⟩, ⟨⟨1⟩, some double⟩]
      (.name (.scalar .uint) ⟨1⟩) .uint :=
    .name (List.singleton_append).symm rfl hdouble chain₁ rfl rfl
  have chain₂ : doublingProgram.Chained [⟨⟨0⟩, some limit⟩, ⟨⟨1⟩, some double⟩] larger .bool :=
    .binary fromDouble (fromLimit _) rfl rfl
  have exact₀ : doublingProgram.Exact (.name (.scalar .int) ⟨0⟩) 2147483647 :=
    .name hlimit (.literal (.int _)) rfl
  have exact₁ : doublingProgram.Exact (.name (.scalar .uint) ⟨1⟩) 4294967294 :=
    .name hdouble (.binary exact₀ (.literal (.int _)) rfl rfl rfl) rfl
  have exact₂ : doublingProgram.Exact (.name (.scalar .bool) ⟨2⟩) 1 :=
    .name hlarger (.binary exact₁ exact₀ rfl rfl rfl) rfl
  obtain ⟨v, hrun, hfolds, -⟩ := @chains_fold_exactly doublingProgram .standard [.module ⟨0⟩] ⟨1⟩
    [⟨⟨1⟩, some double⟩] [] ⟨⟨2⟩, some larger⟩ larger .bool .bool rfl rfl hlarger
    (by rw [lowered]; exact chain₂) rfl rfl _ rfl
  obtain ⟨value, hvalue, hwhole, htext⟩ := hfolds.folds 1 exact₂
  exact ⟨_, v, rfl, hrun, ⟨value, hvalue, hwhole⟩, htext⟩

end Session
end ColorLowering
