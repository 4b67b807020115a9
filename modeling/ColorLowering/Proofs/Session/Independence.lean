import ColorLowering.Proofs.Agreement.Apart
import ColorLowering.Proofs.Session.Tables

/-!
# Independent modules

Two modules that refer to none of each other's constants can be lowered in either order. Each looks
up nothing that the other enters, so it gives the same answer before and after the other, and the
tables are the same in the end: what differs apart from the one module does not differ apart from
the other.
-/
namespace ColorLowering

def Program.OwnsFunctions (p : Program) : Prop :=
  ∀ m, ∀ f ∈ (p.module m).functions, (p.symbol f.symbol).module = some m

/-- Nothing that the module `m` refers to, through omitted arguments or not, is a constant of the
module `other`. -/
def Program.Avoids (p : Program) (m other : ModuleId) : Prop :=
  ∀ portable e, p.RendersAt m portable e → ∀ symbol ∈ e.referred,
    Unlisted (p.module other).constants symbol

namespace Emission

variable {base base' : EmissionState}

/-- Constants take the same route whatever is known of another module. -/
theorem sameConstant_off {ctx : ModuleContext} {other : ModuleId} (hother : ctx.module ≠ other)
    (hp : ctx.program.OwnsConstants) {c : Constant}
    (hc : c ∈ (ctx.program.module ctx.module).constants) :
    SameConstant ctx ctx (Classification.SameOff ctx.program other) c := by
  have foreign : ∀ symbol, (ctx.program.symbol symbol).module = some ctx.module →
      Unlisted (ctx.program.module other).constants symbol := by
    rintro symbol hhome d hd rfl
    rw [hp.owned other d hd] at hhome
    exact hother (Option.some.inj hhome).symm
  have own := foreign c.symbol (hp.owned ctx.module c hc)
  refine ⟨rfl, fun k k' hk => ?_, fun k k' hk => ?_⟩
  · rw [Table.contains, Table.contains, (hk.entry c.symbol own).literal]
  · exact isForced_congr (hk.entry c.symbol own).needsModuleInit fun init _ name _ hhome =>
      (hk.entry name (foreign name (of_decide_eq_true hhome))).strategy

/-- A module is lowered alike from states that differ in another module, if it refers to none of the
other's constants. -/
theorem agrees_module_off {ctx : ModuleContext} {other : ModuleId} (hother : ctx.module ≠ other)
    (hp : ctx.program.OwnsConstants) (hf : ctx.program.OwnsFunctions)
    (havoids : ctx.program.Avoids ctx.module other) :
    let Related := base.Abreast base' (Classification.SameOff ctx.program other)
      (DefaultTexts.SameOff other)
    Agrees True Related Related ctx ctx (module (ctx.program.module ctx.module)) := by
  apply agrees_module_of_steady (.refl ctx) (fun _ _ => rfl) (Classification.SameOff.steady ctx)
  · exact fun he => sameLookups_off hother (havoids _ _ he)
  · exact fun c hc init hinit => sameSurvey_off hother c.symbol (havoids _ _ (.constant hc hinit))
  · exact fun c hc => sameConstant_off hother hp hc
  · intro f hf'
    refine ⟨rfl, fun k k' hk => ?_⟩
    rw [Table.contains, Table.contains, hk.called f.symbol]
    rw [hf ctx.module f hf']
    exact fun h => hother (Option.some.inj h)
  · exact fun _ _ _ _ => rfl

end Emission
namespace Session

/-- What a request for a module gives back: its result and what it added to each output and to the
entry routines. -/
structure Outcome where
  result : Except Failure Unit
  header : String
  body : String
  entries : List EntryRoutine

def outcome (p : Program) (s : Session) (m : ModuleId) : Outcome :=
  let answer := s.answer p (.module m)
  ⟨answer.result, answer.header, answer.body, answer.entries.drop s.tables.entries.length⟩

/-- Both sessions stand at the margin, and their tables are the same apart from the module `m`. -/
structure SameOff (p : Program) (m : ModuleId) (s s' : Session) : Prop where
  target : s.target = s'.target
  known : Classification.SameOff p m s.tables.known s'.tables.known
  texts : DefaultTexts.SameOff m s.tables.defaultTexts s'.tables.defaultTexts
  margin : s.AtMargin
  margin' : s'.AtMargin

namespace SameOff

variable {p : Program} {m : ModuleId} {s s' s'' : Session}

theorem symm (h : SameOff p m s s') : SameOff p m s' s :=
  ⟨h.target.symm, h.known.symm, h.texts.symm, h.margin', h.margin⟩

theorem trans (h : SameOff p m s s') (h' : SameOff p m s' s'') : SameOff p m s s'' :=
  ⟨h.target.trans h'.target, h.known.trans h'.known, h.texts.trans h'.texts, h.margin, h'.margin'⟩

end SameOff

section
variable {p : Program} {s s' : Session}

/-- Lowering a module makes no difference apart from it. -/
theorem sameOff_next (hs : s.AtMargin) (m : ModuleId) : SameOff p m s (s.next p (.module m)) := by
  have margin := atMargin_lowerModule p m hs
  change SameOff p m s ((lowerModule p m).run s).2
  cases hrun : (lowerModule p m).run s with
  | mk result t =>
      rw [hrun] at margin
      obtain ⟨out, rfl, hout, rfl⟩ | ⟨e, out, rfl, hout, -⟩ := lowerModule_cases hrun
      · obtain ⟨hknown, htexts, -⟩ := @Emission.sameOff_module ⟨p, s.target, m⟩ _ _ hout
        exact ⟨rfl, hknown, htexts, hs, margin⟩
      · rw [eq_of_lowerModule_error hs hrun]
        exact ⟨rfl, .refl _, .refl _, hs, hs⟩

theorem entries_next (hs : s.AtMargin) (m : ModuleId) :
    (s.next p (.module m)).tables.entries = s.tables.entries ++ (s.outcome p m).entries := by
  change ((lowerModule p m).run s).2.tables.entries = s.tables.entries ++
    ((lowerModule p m).run s).2.tables.entries.drop s.tables.entries.length
  cases hrun : (lowerModule p m).run s with
  | mk result t =>
      obtain ⟨out, rfl, hout, rfl⟩ | ⟨e, out, rfl, hout, -⟩ := lowerModule_cases hrun
      · obtain ⟨-, -, added, hadded⟩ := @Emission.sameOff_module ⟨p, s.target, m⟩ _ _ hout
        change s.tables.entries ++ added = out.tables.entries at hadded
        simp [← hadded]
      · rw [eq_of_lowerModule_error hs hrun]
        simp

theorem outcome_of_module_ok {m : ModuleId} {out : EmissionState}
    {header body : Array String} {entries : List EntryRoutine}
    (hout : Emission.module (p.module m) ⟨p, s.target, m⟩ s.emissionState = (.ok (), out))
    (hheader : out.header.pieces = s.header.pieces ++ header)
    (hbody : out.body.pieces = s.body.pieces ++ body)
    (hentries : out.tables.entries = s.tables.entries ++ entries) :
    s.outcome p m = ⟨.ok (), Text.Writer.joined header, Text.Writer.joined body, entries⟩ := by
  have run := run_of_module_ok hout
  change Outcome.mk ((lowerModule p m).run s).1
    (((lowerModule p m).run s).2.header.textSince s.header.mark)
    (((lowerModule p m).run s).2.body.textSince s.body.mark)
    (((lowerModule p m).run s).2.tables.entries.drop s.tables.entries.length) = _
  rw [run]
  simp [Text.Writer.textSince, Text.Writer.mark, hheader, hbody, hentries]

theorem outcome_of_module_error (hs : s.AtMargin) {m : ModuleId} {e : Failure}
    {out : EmissionState}
    (hout : Emission.module (p.module m) ⟨p, s.target, m⟩ s.emissionState = (.error e, out)) :
    s.outcome p m = ⟨.error e, "", "", []⟩ ∧ s.next p (.module m) = s := by
  have run := run_of_module_error hout
  have restored := eq_of_lowerModule_error hs run
  rw [restored] at run
  have same : s.next p (.module m) = s := congrArg Prod.snd run
  refine ⟨?_, same⟩
  change Outcome.mk ((lowerModule p m).run s).1
    (((lowerModule p m).run s).2.header.textSince s.header.mark)
    (((lowerModule p m).run s).2.body.textSince s.body.mark)
    (((lowerModule p m).run s).2.tables.entries.drop s.tables.entries.length) = _
  rw [run]
  simp [Text.Writer.textSince, Text.Writer.mark, Text.Writer.joined]

/-- A module that avoids another gives the same answer whatever the other has entered, and the two
sessions differ no more afterwards. -/
theorem outcome_of_sameOff (hp : p.OwnsConstants) (hf : p.OwnsFunctions) {m other : ModuleId}
    (hother : m ≠ other) (havoids : p.Avoids m other) (h : SameOff p other s s') :
    s.outcome p m = s'.outcome p m ∧
      SameOff p other (s.next p (.module m)) (s'.next p (.module m)) := by
  obtain ⟨htarget, hknown, htexts, hs, hs'⟩ := h
  have agrees := @Emission.agrees_module_off s.emissionState s'.emissionState ⟨p, s.target, m⟩
    other hother hp hf havoids
  have start : s.emissionState.Abreast s'.emissionState (Classification.SameOff p other)
      (DefaultTexts.SameOff other) s.emissionState s'.emissionState :=
    ⟨hknown, htexts, .start (hs.1.trans hs'.1.symm), .start (hs.2.trans hs'.2.symm), [],
      by simp, by simp⟩
  have margin := atMargin_next p hs (.module m)
  have margin' := atMargin_next p hs' (.module m)
  cases hrun : Emission.module (p.module m) ⟨p, s.target, m⟩ s.emissionState with
  | mk result out =>
      cases result with
      | ok u =>
          obtain ⟨out', hrun', hknown, htexts, ⟨⟨header, hh, hh'⟩, -⟩, ⟨⟨body, hb, hb'⟩, -⟩,
            entries, he, he'⟩ := agrees.done start hrun
          rw [htarget] at hrun'
          refine ⟨?_, ?_⟩
          · rw [outcome_of_module_ok hrun hh hb he, outcome_of_module_ok hrun' hh' hb' he']
          · have next : s.next p (.module m) = ⟨s.target, out.tables, out.header, out.body⟩ :=
              congrArg Prod.snd (run_of_module_ok hrun)
            have next' : s'.next p (.module m) = ⟨s'.target, out'.tables, out'.header, out'.body⟩ :=
              congrArg Prod.snd (run_of_module_ok hrun')
            rw [next] at margin ⊢
            rw [next'] at margin' ⊢
            exact ⟨htarget, hknown, htexts, margin, margin'⟩
      | error e =>
          obtain ⟨out', hrun'⟩ := agrees.failed start hrun trivial
          rw [htarget] at hrun'
          obtain ⟨houtcome, hnext⟩ := outcome_of_module_error hs hrun
          obtain ⟨houtcome', hnext'⟩ := outcome_of_module_error hs' hrun'
          rw [houtcome, houtcome', hnext, hnext']
          exact ⟨rfl, htarget, hknown, htexts, hs, hs'⟩

theorem tables_eq_of_sameOff (hp : p.OwnsConstants) {a b : ModuleId} (hab : a ≠ b)
    (ha : SameOff p a s s') (hb : SameOff p b s s') :
    s.tables.known = s'.tables.known ∧ s.tables.defaultTexts = s'.tables.defaultTexts := by
  have entry (symbol : SymbolId) :
      Classification.SameEntry s.tables.known s'.tables.known symbol := by
    by_cases h : Unlisted (p.module a).constants symbol
    · exact ha.known.entry symbol h
    · apply hb.known.entry symbol
      obtain ⟨c, hc, rfl⟩ : ∃ c ∈ (p.module a).constants, c.symbol = symbol := by
        simpa [Unlisted] using h
      intro d hd heq
      have howner := hp.owned b d hd
      rw [heq, hp.owned a c hc] at howner
      exact hab (Option.some.inj howner)
  have called (symbol : SymbolId) :
      s.tables.known.calledInInit.get? symbol = s'.tables.known.calledInInit.get? symbol := by
    by_cases h : (p.symbol symbol).module = some a
    · exact hb.known.called symbol fun h' => hab (Option.some.inj (h.symm.trans h'))
    · exact ha.known.called symbol h
  have text (id : ExprId) (m : ModuleId) :
      s.tables.defaultTexts.get? (id, m) = s'.tables.defaultTexts.get? (id, m) := by
    by_cases h : m = a
    · exact hb.texts.text id m fun h' => hab (h.symm.trans h')
    · exact ha.texts.text id m h
  exact ⟨Classification.eq_of_sameEntry entry called,
    DefaultTexts.eq_of_get? ha.texts.kept fun key => text key.1 key.2⟩

/-- Two modules that refer to none of each other's constants can be lowered in either order, in any
session. Each fails alike or adds the same to both outputs and to the entry routines, and the tables
are the same in the end, but that the entry routines of the module lowered first come first. -/
theorem independent_modules_commute (hp : p.OwnsConstants) (hf : p.OwnsFunctions) (target : Target)
    (steps : List Step) {a b : ModuleId} (hab : a ≠ b) (ha : p.Avoids a b) (hb : p.Avoids b a) :
    let s := (new target).after p steps
    let ab := s.after p [.module a, .module b]
    let ba := s.after p [.module b, .module a]
    (s.next p (.module b)).outcome p a = s.outcome p a ∧
      (s.next p (.module a)).outcome p b = s.outcome p b ∧
      ab.tables.known = ba.tables.known ∧ ab.tables.defaultTexts = ba.tables.defaultTexts ∧
      ab.tables.entries =
        s.tables.entries ++ (s.outcome p a).entries ++ (s.outcome p b).entries ∧
      ba.tables.entries =
        s.tables.entries ++ (s.outcome p b).entries ++ (s.outcome p a).entries := by
  intro s ab ba
  have margin : s.AtMargin := atMargin_after p (atMargin_new target) steps
  have margin_a : (s.next p (.module a)).AtMargin := atMargin_next p margin _
  have margin_b : (s.next p (.module b)).AtMargin := atMargin_next p margin _
  obtain ⟨houtcome_a, hlater_a⟩ := outcome_of_sameOff hp hf hab ha (sameOff_next margin b)
  obtain ⟨houtcome_b, hlater_b⟩ := outcome_of_sameOff hp hf hab.symm hb (sameOff_next margin a)
  -- Apart from `b`, lowering `b` last makes no difference, and neither did lowering it first.
  have off_b : SameOff p b ab ba := (sameOff_next margin_a b).symm.trans hlater_a
  have off_a : SameOff p a ab ba := hlater_b.symm.trans (sameOff_next margin_b a)
  obtain ⟨hknown, htexts⟩ := tables_eq_of_sameOff hp hab off_a off_b
  refine ⟨houtcome_a.symm, houtcome_b.symm, hknown, htexts, ?_, ?_⟩
  · change ((s.next p (.module a)).next p (.module b)).tables.entries = _
    rw [entries_next margin_a, entries_next margin, ← houtcome_b]
  · change ((s.next p (.module b)).next p (.module a)).tables.entries = _
    rw [entries_next margin_b, entries_next margin, ← houtcome_a]

end

def callOfNegation : Expr :=
  .call (.scalar .int) (.function ⟨1⟩ [.optional "p" (.scalar .int) ⟨0⟩
    (.unary (.scalar .int) .neg (.literal (.scalar .int) (.scalar (.int 3))))]) []

def independentProgram : Program where
  symbols := #[⟨"x", some ⟨0⟩, .var (.scalar .int) false⟩,
    ⟨"f", some ⟨0⟩, .fn [⟨"p", .scalar .int, .read⟩] (.scalar .int)⟩,
    ⟨"k", some ⟨1⟩, .var (.scalar .int) false⟩, ⟨"main", some ⟨1⟩, .fn [] (.scalar .int)⟩]
  modules := #[⟨"first", "", [], [⟨⟨0⟩, some callOfNegation⟩], [⟨⟨1⟩, []⟩]⟩,
    ⟨"second", "", [], [⟨⟨2⟩, some (.literal (.scalar .int) (.scalar (.int 5)))⟩],
      [⟨⟨3⟩, [.eval callOfNegation, .ret (some (.name (.scalar .int) ⟨2⟩))]⟩]⟩]

theorem avoids_independentProgram :
    independentProgram.Avoids ⟨0⟩ ⟨1⟩ ∧ independentProgram.Avoids ⟨1⟩ ⟨0⟩ := by
  have first : ∀ portable e, independentProgram.RendersAt ⟨0⟩ portable e → e = callOfNegation := by
    intro portable e h
    cases h with
    | constant hc hinit =>
        obtain rfl := List.mem_singleton.mp hc
        exact (Option.some.inj hinit).symm
    | body hf he =>
        obtain rfl := List.mem_singleton.mp hf
        cases he
  have second : ∀ portable e, independentProgram.RendersAt ⟨1⟩ portable e →
      e.referred = [] ∨ e = callOfNegation ∨ e = .name (.scalar .int) ⟨2⟩ := by
    intro portable e h
    cases h with
    | constant hc hinit =>
        obtain rfl := List.mem_singleton.mp hc
        obtain rfl := Option.some.inj hinit
        exact .inl rfl
    | body hf he =>
        obtain rfl := List.mem_singleton.mp hf
        simpa [Stmt.exprsAll, Stmt.exprs] using Or.inr he
  constructor
  · intro portable e h symbol hsymbol
    obtain rfl := first portable e h
    obtain rfl : symbol = ⟨1⟩ := List.mem_singleton.mp hsymbol
    simp [Unlisted, independentProgram, Program.module]
  · intro portable e h symbol hsymbol
    have refers : symbol = ⟨1⟩ ∨ symbol = ⟨2⟩ := by
      obtain hnone | rfl | rfl := second portable e h
      · rw [hnone] at hsymbol
        cases hsymbol
      · exact .inl (List.mem_singleton.mp hsymbol)
      · exact .inr (List.mem_singleton.mp hsymbol)
    rcases refers with rfl | rfl <;> simp [Unlisted, independentProgram, Program.module]

/-- The second module adds its entry routine and its texts whether or not the first came before. -/
theorem independent_modules_lowered :
    let s := (new .standard).after independentProgram []
    (s.outcome independentProgram ⟨0⟩).result = .ok () ∧
    (s.outcome independentProgram ⟨1⟩).result = .ok () ∧
    (s.next independentProgram (.module ⟨0⟩)).outcome independentProgram ⟨1⟩ =
      s.outcome independentProgram ⟨1⟩ ∧
    (s.after independentProgram [.module ⟨0⟩, .module ⟨1⟩]).tables.known =
      (s.after independentProgram [.module ⟨1⟩, .module ⟨0⟩]).tables.known := by
  have owns : independentProgram.OwnsConstants := by
    constructor <;> rintro ⟨_ | _ | n⟩ <;>
      simp [independentProgram, Program.module, Program.symbol]
  have functions : independentProgram.OwnsFunctions := by
    rintro ⟨_ | _ | n⟩ <;> simp [independentProgram, Program.module, Program.symbol]
  obtain ⟨first, second⟩ := avoids_independentProgram
  obtain ⟨-, houtcome, hknown, -⟩ := independent_modules_commute owns functions .standard []
    (a := ⟨0⟩) (b := ⟨1⟩) (by decide) first second
  exact ⟨rfl, rfl, houtcome, hknown⟩

end Session
end ColorLowering
