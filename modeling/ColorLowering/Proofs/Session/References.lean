import ColorLowering.Proofs.Rerun.Entries
import ColorLowering.Proofs.Session.DeclaredConstants
import ColorLowering.Proofs.Session.Defaults
import ColorLowering.Proofs.Session.Renaming

/-!
# References name what is declared

Where modules refer to nothing that a later module declares, every reference to a constant is its
literal text, the same everywhere, or the identifier under which its module declares it, with the
namespace in which that module stands wherever the bare identifier would not do. A reference to a
function is the identifier of its definition, qualified in the same way.
-/
namespace ColorLowering

/-- While the module of the context is lowered from the state `s`, the expression is rendered when
this much is known, for its place (`false`) or for any module (`true`). -/
inductive Emission.Renders (ctx : ModuleContext) (s : EmissionState) :
    Classification → Bool → Expr → Prop
  /-- In the survey an expression is rendered for the text of a literal. -/
  | survey {before after : List Constant} {c : Constant} {init : Expr} {t : EmissionState} :
      (ctx.program.module ctx.module).constants = before ++ c :: after →
      Emission.surveyConstants before ctx s = (.ok (), t) → c.init = some init →
      init.isLiteral t.tables.known.literals = true → Renders ctx s t.tables.known false init
  | constant {before after : List Constant} {c : Constant} {init : Expr} {start t : EmissionState}
      {lowered : List LoweredConstant} :
      (ctx.program.module ctx.module).constants = before ++ c :: after →
      Emission.heading (ctx.program.module ctx.module) ctx s = (.ok (), start) →
      Emission.constantList before ctx start = (.ok lowered, t) → c.init = some init →
      Renders ctx s t.tables.known (ctx.program.symbol c.symbol).isPlaceholder init
  | body {f : Function} {e : Expr} {start t : EmissionState} {lowered : List LoweredConstant} :
      Emission.heading (ctx.program.module ctx.module) ctx s = (.ok (), start) →
      Emission.constantList (ctx.program.module ctx.module).constants ctx start =
        (.ok lowered, t) →
      f ∈ (ctx.program.module ctx.module).functions → e ∈ Stmt.exprsAll f.body →
      Renders ctx s t.tables.known false e

namespace Emission

variable {ctx : ModuleContext} {s out : EmissionState} {known : Classification} {portable : Bool}
  {e : Expr} {symbol : SymbolId}

theorem Renders.rendersAt (h : Renders ctx s known portable e) :
    ∃ portable', ctx.program.RendersAt ctx.module portable' e := by
  cases h with
  | survey hcs _ hinit _ => exact ⟨_, .constant (by simp [hcs]) hinit⟩
  | constant hcs _ _ hinit => exact ⟨_, .constant (by simp [hcs]) hinit⟩
  | body _ _ hf he => exact ⟨_, .body hf he⟩

theorem sameEntry_of_heading {m : Module} {start : EmissionState}
    (hrun : heading m ctx s = (.ok (), start)) (hm : Unlisted m.constants symbol) :
    s.tables.known.SameEntry start.tables.known symbol := by
  obtain ⟨surveyed, hsurvey, hstart⟩ := heading_surveys hrun
  rw [hstart]
  exact sameEntry_of_surveyConstants hsurvey hm

theorem Renders.sameEntry (h : Renders ctx s known portable e)
    (hsymbol : Unlisted (ctx.program.module ctx.module).constants symbol) :
    s.tables.known.SameEntry known symbol := by
  cases h with
  | survey hcs hsurvey _ _ =>
      rw [hcs] at hsymbol
      exact sameEntry_of_surveyConstants hsurvey fun d hd => hsymbol d (List.mem_append_left _ hd)
  | constant hcs hheading hlist _ =>
      refine (sameEntry_of_heading hheading hsymbol).trans (sameEntry_of_constantList hlist ?_)
      rw [hcs] at hsymbol
      exact fun d hd => hsymbol d (List.mem_append_left _ hd)
  | body hheading hlist _ _ =>
      exact (sameEntry_of_heading hheading hsymbol).trans (sameEntry_of_constantList hlist hsymbol)

theorem literals_of_module {m : Module} {start : EmissionState}
    (hrun : module m ctx s = (.ok (), out)) (hheading : heading m ctx s = (.ok (), start)) :
    out.tables.known.literals = start.tables.known.literals := by
  obtain ⟨start', t, lowered, hheading', hlist, -, hknown⟩ := module_runs hrun
  rw [hheading] at hheading'
  cases hheading'
  rw [hknown, ((literals_frame.within_constantList _).done hlist).1]

/-- What an expression refers to is a literal when it is rendered or never. -/
theorem Renders.literal (h : Renders ctx s known portable e)
    (honce : ((ctx.program.module ctx.module).constants.map Constant.symbol).Nodup)
    (hnew : ∀ c ∈ (ctx.program.module ctx.module).constants,
      s.tables.known.literals.contains c.symbol = false)
    (hrun : module (ctx.program.module ctx.module) ctx s = (.ok (), out))
    (hsymbol : symbol ∈ e.referred) :
    known.literals.get? symbol = out.tables.known.literals.get? symbol := by
  cases h with
  | @survey before after c init t hcs hsurvey hinit hliteral =>
      have literal := Expr.literal_of_isLiteral _ hliteral symbol hsymbol
      obtain ⟨start, _, _, hheading, -⟩ := module_runs hrun
      obtain ⟨surveyed, hwhole, hstart⟩ := heading_surveys hheading
      rw [literals_of_module hrun hheading, hstart]
      rw [hcs, surveyConstants_append] at hwhole
      obtain ⟨_, t', hbefore, hafter⟩ := bind_eq_ok.mp hwhole
      rw [hsurvey] at hbefore
      cases hbefore
      refine (sameEntry_of_surveyConstants hafter ?_).literal
      rintro d hd rfl
      -- a constant that is still to be surveyed is no literal yet
      rw [hcs, List.map_append, List.nodup_append] at honce
      have entry := sameEntry_of_surveyConstants hsurvey fun b hb heq =>
        honce.2.2 _ (List.mem_map_of_mem hb) _ (List.mem_map_of_mem hd) heq
      have unknown := hnew d (by rw [hcs]; exact List.mem_append_right _ hd)
      rw [Table.contains, entry.literal] at unknown
      rw [Table.contains, unknown] at literal
      cases literal
  | constant hcs hheading hlist hinit =>
      rw [literals_of_module hrun hheading,
        ((literals_frame.within_constantList _).done hlist).1]
  | body hheading hlist _ _ =>
      rw [literals_of_module hrun hheading,
        ((literals_frame.within_constantList _).done hlist).1]

theorem globals_of_constantList {cs : List Constant} {lowered : List LoweredConstant}
    (honce : (cs.map Constant.symbol).Nodup) (hrun : constantList cs ctx s = (.ok lowered, out))
    {c : Constant} (hc : c ∈ cs) (hdeclared : ctx.program.declares s.tables.known c = true) :
    out.tables.known.globals.contains c.symbol = true := by
  obtain ⟨before, after, rfl⟩ := List.append_of_mem hc
  obtain ⟨early, t, late, hbefore, hfrom, rfl⟩ := constantList_append_ok hrun
  obtain ⟨one, u, others, hone, hafter, rfl⟩ := constantList_cons_ok hfrom
  rw [List.map_append, List.map_cons, List.nodup_append, List.nodup_cons] at honce
  have apart : ∀ d ∈ after, d.symbol ≠ c.symbol :=
    fun d hd heq => honce.2.1.1 (heq ▸ List.mem_map_of_mem hd)
  have kept := sameEntry_of_constantList hafter apart
  have literals := ((literals_frame.within_constantList before).done hbefore).1
  obtain ⟨lowered, rfl, hdeclares⟩ := constant_declares hone (by rwa [Program.declares, literals])
  obtain ⟨strategy, hknown, -⟩ := hdeclares.known
  rw [Table.contains, ← kept.global, hknown]
  simp [Classification.addGlobal]

end Emission

namespace Scope

variable {s : Scope} {symbol : SymbolId} {m : ModuleId}

/-- A variable that is no literal is written bare at home, unless it is declared and the text is for
any module. -/
theorem resolve_variable (hliteral : s.known.literals.get? symbol = none)
    (hvariable : (s.program.symbol symbol).isFunction = false)
    (howner : (s.program.symbol symbol).module = some m)
    (hdeclared : m ≠ s.module → s.known.globals.contains symbol = true) :
    s.resolve symbol =
      (if m ≠ s.module ∨ (s.qualifyAll = true ∧ s.known.globals.contains symbol = true) then
        s.program.namespaceOf m ++ "::" else "") ++
      Text.unqualified (s.program.symbol symbol).name := by
  rw [resolve, hliteral]
  simp only [hvariable, Bool.false_eq_true, if_false, variableReference, howner, qualified]
  by_cases hm : m = s.module
  · cases hglobal : s.known.globals.contains symbol <;> cases hq : s.qualifyAll <;> simp [hm]
  · simp [hdeclared hm, hm]

theorem resolve_function (hliteral : s.known.literals.get? symbol = none)
    (hfunction : (s.program.symbol symbol).isFunction = true)
    (howner : (s.program.symbol symbol).module = some m) :
    s.resolve symbol = (if m ≠ s.module ∨ s.qualifyAll = true then
      s.program.namespaceOf m ++ "::" else "") ++
        s.program.functionName (s.program.symbol symbol) := by
  rw [resolve, hliteral]
  simp only [hfunction, if_true, functionReference, howner, qualified]
  by_cases hm : m = s.module
  · cases hq : s.qualifyAll <;> simp [hm]
  · simp [hm]

end Scope

/-- Constants and functions are listed by the modules that own them, and nothing refers to a constant
that a later module lists. -/
structure Program.RefersBackward (p : Program) : Prop where
  constants : p.OwnsConstants
  functions : p.OwnsFunctions
  isVariable : ∀ m, ∀ c ∈ (p.module m).constants, (p.symbol c.symbol).isFunction = false
  backward : ∀ {m portable e}, p.RendersAt m portable e → ∀ symbol ∈ e.referred,
    p.Settled m symbol

namespace Program

theorem mem_moduleIds (p : Program) {m : ModuleId} :
    m ∈ p.moduleIds ↔ m.index < p.modules.size := by
  cases m
  simp [moduleIds]

theorem pairwise_moduleIds (p : Program) : p.moduleIds.Pairwise (·.index < ·.index) :=
  List.pairwise_map.mpr List.pairwise_lt_range

end Program

namespace Session

variable {p : Program} {target : Target} {done : List ModuleId} {s s' : Session} {m n : ModuleId}

namespace Reached

theorem of_forM_ok {ms : List ModuleId} (hs : Reached p target done s)
    (hrun : (ms.forM (lowerModule p)).run s = (.ok (), s')) :
    Reached p target (done ++ ms) s' := by
  induction ms generalizing done s with
  | nil =>
      cases hrun
      rwa [List.append_nil]
  | cons m rest ih =>
      obtain ⟨t, hfirst, hrest⟩ := forM_cons_ok.mp hrun
      have later := ih (hs.lowered hfirst) hrest
      rwa [List.append_assoc] at later

theorem exists_run (hs : Reached p target (done ++ [m]) s) :
    ∃ first, Reached p target done first ∧ (lowerModule p m).run first = (.ok (), s) := by
  generalize hall : done ++ [m] = all at hs
  induction hs with
  | new => simp at hall
  | @lowered done' s s' m' hs hrun _ =>
      obtain ⟨rfl, hlast⟩ := List.append_inj' hall rfl
      obtain rfl := List.singleton_inj.mp hlast
      exact ⟨s, hs, hrun⟩
  | failed hs hrun ih =>
      rw [eq_of_lowerModule_error hs.atMargin hrun]
      exact ih hall

theorem exists_run_of_mem (hs : Reached p target done s) (hm : m ∈ done) :
    ∃ before later first next, done = before ++ m :: later ∧ Reached p target before first ∧
      (lowerModule p m).run first = (.ok (), next) := by
  obtain ⟨before, later, rfl⟩ := List.append_of_mem hm
  rw [List.append_cons] at hs
  obtain ⟨next, hnext⟩ := hs.exists_before
  obtain ⟨first, hfirst, hrun⟩ := hnext.exists_run
  exact ⟨before, later, first, next, rfl, hfirst, hrun⟩

theorem isFunction (hs : Reached p target done s) (hm : m ∈ done) {f : Function}
    (hf : f ∈ (p.module m).functions) : (p.symbol f.symbol).isFunction = true := by
  obtain ⟨before, later, first, next, -, hfirst, hrun⟩ := hs.exists_run_of_mem hm
  obtain ⟨out, -, hout, rfl⟩ | ⟨_, _, hfailed, -, -⟩ := lowerModule_cases hrun
  · obtain ⟨_, _, _, _, _, closed, _, run, -⟩ := Emission.moduleRun_of_ok hout
    have margin := hfirst.atMargin
    exact (Emission.functions_ok (by rw [run.unpublished.1]; exact margin.1)
      (run.left margin.2).2.2.1 run.functions).1 f hf
  · cases hfailed

theorem global (hs : Reached p target done s) (hp : p.OwnsConstants) (hdone : done.Nodup)
    (hm : m ∈ done) {c : Constant} (hc : c ∈ (p.module m).constants)
    (hdeclared : p.declares s.tables.known c = true) :
    s.tables.known.globals.contains c.symbol = true := by
  obtain ⟨before, later, first, next, rfl, hfirst, hrun⟩ := hs.exists_run_of_mem hm
  have foreign : ∀ n ∈ later, Unlisted (p.module n).constants c.symbol := by
    intro n hn d hd heq
    have owner := hp.owned n d hd
    rw [heq, hp.owned m c hc] at owner
    rw [List.nodup_append, List.nodup_cons] at hdone
    exact hdone.2.1.1 (Option.some.inj owner ▸ hn)
  rw [List.append_cons] at hs
  have kept := hs.sameEntry (hfirst.lowered hrun) foreign
  rw [Program.declares, Table.contains, ← kept.literal] at hdeclared
  rw [Table.contains, ← kept.global]
  obtain ⟨out, -, hout, rfl⟩ | ⟨_, _, hfailed, -, -⟩ := lowerModule_cases hrun
  · obtain ⟨start, t, lowered, hheading, hlist, -, hknown⟩ := Emission.module_runs hout
    have literals := Emission.literals_of_module hout hheading
    dsimp only at hdeclared ⊢
    rw [hknown]
    rw [literals] at hdeclared
    exact Emission.globals_of_constantList (hp.once m) hlist hc hdeclared
  · cases hfailed

end Reached

section
variable (hp : p.RefersBackward) {before later : List ModuleId} {final : Session}
  {known : Classification} {portable : Bool} {e : Expr} {symbol : SymbolId}
  (hids : p.moduleIds = before ++ n :: later) (hs : Reached p target before s)
  (hrun : (lowerModule p n).run s = (.ok (), s')) (hfinal : Reached p target p.moduleIds final)
  (he : Emission.Renders ⟨p, target, n⟩ s.emissionState known portable e)
  (hsymbol : symbol ∈ e.referred)
include hp hids he hsymbol

/-- A constant that is referred to is listed by the module itself or was listed by one before it. -/
theorem listed_before {c : Constant} (hc : c ∈ (p.module m).constants)
    (heq : c.symbol = symbol) : m = n ∨ m ∈ before := by
  obtain ⟨_, hat⟩ := he.rendersAt
  have settled := hp.backward hat symbol hsymbol
  have listed : m ∈ p.moduleIds := p.mem_moduleIds.mpr (Program.lt_of_mem_constants hc)
  have sorted := p.pairwise_moduleIds
  rw [hids, List.mem_append, List.mem_cons] at listed
  rw [hids, List.pairwise_append, List.pairwise_cons] at sorted
  rcases listed with hbefore | rfl | hlater
  · exact .inr hbefore
  · exact .inl rfl
  · exact absurd heq (settled m (sorted.2.1.1 m hlater) c hc)

include hs hrun hfinal

/-- What is known of a constant where it is referred to is known of it in the end, but that it may
still have to be declared. -/
theorem known_of_referred {c : Constant} (hc : c ∈ (p.module m).constants)
    (heq : c.symbol = symbol) :
    known.literals.get? symbol = final.tables.known.literals.get? symbol ∧
      (m ≠ n → p.declares final.tables.known c = true →
        known.globals.contains symbol = true) := by
  have owner : (p.symbol symbol).module = some m := heq ▸ hp.constants.owned m c hc
  have once := nodup_moduleIds p
  have foreign {other : ModuleId} (hother : other ≠ m) :
      Unlisted (p.module other).constants symbol := by
    intro d hd heq'
    have owner' := hp.constants.owned other d hd
    rw [heq', owner] at owner'
    exact hother (Option.some.inj owner').symm
  have whole := hfinal
  rw [hids] at hfinal once
  rw [List.nodup_append, List.nodup_cons] at once
  obtain ⟨hbeforeOnce, ⟨hlast, -⟩, hfirst⟩ := once
  rcases listed_before hp hids he hsymbol hc heq with rfl | hbefore
  · refine ⟨?_, fun hm => absurd rfl hm⟩
    rw [List.append_cons] at hfinal
    have kept := hfinal.sameEntry (hs.lowered hrun)
      fun other hother => foreign fun heq => hlast (heq ▸ hother)
    have new : ∀ d ∈ (p.module m).constants,
        s.tables.known.literals.contains d.symbol = false := by
      intro d hd
      have unlisted : ∀ other ∈ before, Unlisted (p.module other).constants d.symbol := by
        intro other hother d' hd' heq'
        have owner' := hp.constants.owned other d' hd'
        rw [heq', hp.constants.owned m d hd] at owner'
        exact hfirst other hother m List.mem_cons_self (Option.some.inj owner').symm
      rw [Table.contains, ← (hs.sameEntry_empty unlisted).literal]
      rfl
    obtain ⟨out, -, hout, rfl⟩ | ⟨_, _, hfailed, -, -⟩ := lowerModule_cases hrun
    · rw [hs.target_eq] at hout
      rw [← kept.literal]
      exact he.literal (hp.constants.once m) new hout hsymbol
    · cases hfailed
  · have other : m ≠ n := fun heq => hfirst m hbefore n List.mem_cons_self heq
    have unlisted : ∀ other ∈ n :: later, Unlisted (p.module other).constants symbol :=
      fun other hother => foreign fun heq => hfirst m hbefore other hother heq.symm
    have later_kept := hfinal.sameEntry hs unlisted
    have now := he.sameEntry (foreign other.symm)
    refine ⟨now.literal.symm.trans later_kept.literal, fun _ hdeclared => ?_⟩
    have declared : p.declares s.tables.known c = true := by
      rw [Program.declares, Table.contains, heq] at hdeclared ⊢
      rwa [later_kept.literal]
    have entered := hs.global hp.constants hbeforeOnce hbefore hc declared
    rw [heq, Table.contains] at entered
    rw [Table.contains, ← now.global]
    exact entered

end

/-- Of a function nothing is known that its reference depends on. -/
theorem literal_of_function (hp : p.RefersBackward) {final : Session}
    (hfinal : Reached p target p.moduleIds final) (hs : Reached p target done s)
    {known : Classification} {portable : Bool} {e : Expr}
    (he : Emission.Renders ⟨p, target, n⟩ s.emissionState known portable e) {f : Function}
    (hf : f ∈ (p.module m).functions) :
    (p.symbol f.symbol).isFunction = true ∧ known.literals.get? f.symbol = none := by
  have listed : m ∈ p.moduleIds := by
    rw [p.mem_moduleIds]
    by_contra hout
    rw [Program.module, Array.getD_eq_getD_getElem?, Array.getElem?_eq_none (Nat.not_lt.mp hout)]
      at hf
    cases hf
  have isFunction := hfinal.isFunction listed hf
  have unlisted : ∀ other, Unlisted (p.module other).constants f.symbol := by
    intro other c hc heq
    have isVariable := hp.isVariable other c hc
    rw [heq, isFunction] at isVariable
    cases isVariable
  refine ⟨isFunction, ?_⟩
  rw [← (he.sameEntry (unlisted n)).literal]
  exact (hs.sameEntry_empty fun other _ => unlisted other).literal.symm

/-- Where a program that refers to nothing ahead is lowered, the body declares every constant that is
neither a literal nor a placeholder under its identifier, and defines every function, each in the
namespace of its module. Wherever a module refers to a constant other than a placeholder, the text is
the literal of the constant, which is the same everywhere, or the identifier under which it is
declared. It has the namespace of its module before it where that is another module, and where the
text is for any module and the constant is declared by then. A function is referred to by the name of
its definition, with the namespace before it in another module and in a text for any module. -/
theorem references_name_declarations (hp : p.RefersBackward) {final : Session}
    (hrun : (lowerAll p).run (new target) = (.ok (), final)) :
    (∃ cs, final.body.text = Preamble.text target ++ String.join (cs.map Chunk.body) ∧
      List.Forall₂ (fun m c => c.DeclaresConstants p target m final.tables.known ∧
        ∃ tables, c.DeclaresFunctions p target m tables) p.moduleIds cs) ∧
    ∀ before n later, p.moduleIds = before ++ n :: later → ∃ s s', Reached p target before s ∧
      (lowerModule p n).run s = (.ok (), s') ∧
      ∀ known portable e, Emission.Renders ⟨p, target, n⟩ s.emissionState known portable e →
        ∀ symbol ∈ e.referred, ∀ m,
          let text := (ModuleContext.scope ⟨p, target, n⟩ known portable).resolve symbol
          let qualifier := p.namespaceOf m ++ "::"
          (∀ c ∈ (p.module m).constants, c.symbol = symbol →
            (p.symbol symbol).isPlaceholder = false →
            final.tables.known.literals.get? symbol = some text ∨
            (p.declares final.tables.known c = true ∧
              text = (if m ≠ n ∨ (portable = true ∧ known.globals.contains symbol = true) then
                qualifier else "") ++ Text.unqualified (p.symbol symbol).name)) ∧
          (∀ f ∈ (p.module m).functions, f.symbol = symbol →
            text = (if m ≠ n ∨ portable = true then qualifier else "") ++
              (p.head target symbol).name) := by
  have start : Reached p target [] (new target) := .new
  have whole : Reached p target p.moduleIds final := start.of_forM_ok hrun
  refine ⟨whole.declarations hp.constants hp.functions (nodup_moduleIds p), ?_⟩
  intro before n later hids
  change (p.moduleIds.forM (lowerModule p)).run (new target) = _ at hrun
  rw [hids] at hrun
  obtain ⟨s, hfirst, hrest⟩ := forM_append_ok.mp hrun
  obtain ⟨s', hown, -⟩ := forM_cons_ok.mp hrest
  have reached : Reached p target before s := start.of_forM_ok hfirst
  refine ⟨s, s', reached, hown, fun known portable e he symbol hsymbol m => ⟨?_, ?_⟩⟩
  · rintro c hc rfl hplaceholder
    obtain ⟨hliteral, hglobal⟩ := known_of_referred hp hids reached hown whole he hsymbol hc rfl
    cases hlast : final.tables.known.literals.get? c.symbol with
    | some literal =>
        rw [hlast] at hliteral
        left
        rw [Scope.resolve]
        simp only [ModuleContext.scope, hliteral]
    | none =>
        rw [hlast] at hliteral
        have declared : p.declares final.tables.known c = true := by
          simp [Program.declares, Table.contains, hlast, hplaceholder]
        exact .inr ⟨declared, Scope.resolve_variable hliteral (hp.isVariable m c hc)
          (hp.constants.owned m c hc) fun hm => hglobal hm declared⟩
  · rintro f hf rfl
    obtain ⟨hfunction, hliteral⟩ := literal_of_function hp whole reached he hf
    exact Scope.resolve_function hliteral hfunction (hp.functions m f hf)

def referringProgram : Program where
  symbols := #[⟨"m::x", some ⟨0⟩, .var (.scalar .int) false⟩,
    ⟨"m::f", some ⟨0⟩, .fn [] (.scalar .int)⟩, ⟨"g", some ⟨1⟩, .fn [] (.scalar .int)⟩]
  modules := #[⟨"m", "", [], [⟨⟨0⟩, some (.call (.scalar .int) (.function ⟨1⟩ []) [])⟩],
      [⟨⟨1⟩, []⟩]⟩,
    ⟨"n", "", [], [], [⟨⟨2⟩, [.ret (some (.binary (.scalar .int) .add (.scalar .int)
      (.name (.scalar .int) ⟨0⟩) (.call (.scalar .int) (.function ⟨1⟩ []) [])))]⟩]⟩]

theorem refersBackward_referringProgram : referringProgram.RefersBackward := by
  have constants : ∀ m : ModuleId, 0 < m.index → (referringProgram.module m).constants = [] := by
    rintro ⟨_ | _ | n⟩ h <;> first | rfl | cases h
  refine ⟨⟨?_, ?_⟩, ?_, ?_, fun {m _ _} _ symbol _ later hlater => ?_⟩
  · rintro ⟨_ | _ | n⟩ <;> simp [referringProgram, Program.module]
  · rintro ⟨_ | _ | n⟩ <;> simp [referringProgram, Program.module, Program.symbol]
  · rintro ⟨_ | _ | n⟩ <;> simp [referringProgram, Program.module, Program.symbol]
  · rintro ⟨_ | _ | n⟩ <;>
      simp [referringProgram, Program.module, Program.symbol, Symbol.isFunction]
  · rw [constants later (Nat.zero_lt_of_lt hlater)]
    simp [Unlisted]

theorem referred_from_another_module :
    (lowerAll referringProgram).run (new .standard) =
      (.ok (), ((lowerAll referringProgram).run (new .standard)).2) ∧
    ∃ s known, Reached referringProgram .standard [⟨0⟩] s ∧
      Emission.Renders ⟨referringProgram, .standard, ⟨1⟩⟩ s.emissionState known false
        (.binary (.scalar .int) .add (.scalar .int)
          (.name (.scalar .int) ⟨0⟩) (.call (.scalar .int) (.function ⟨1⟩ []) [])) ∧
      (ModuleContext.scope ⟨referringProgram, .standard, ⟨1⟩⟩ known false).resolve ⟨0⟩ = "m::x" ∧
      (ModuleContext.scope ⟨referringProgram, .standard, ⟨1⟩⟩ known false).resolve ⟨1⟩ =
        "m::f" := by
  have run : (lowerAll referringProgram).run (new .standard) =
      (.ok (), ((lowerAll referringProgram).run (new .standard)).2) :=
    eq_ok_of_fst (by decide +kernel)
  refine ⟨run, ?_⟩
  obtain ⟨-, references⟩ := references_name_declarations refersBackward_referringProgram run
  obtain ⟨s, s', reached, lowered, named⟩ := references [⟨0⟩] ⟨1⟩ [] rfl
  obtain ⟨out, -, hout, -⟩ | ⟨_, _, hfailed, -, -⟩ := lowerModule_cases lowered
  · rw [reached.target_eq] at hout
    obtain ⟨start, t, _, hheading, hlist, -, -⟩ := Emission.module_runs hout
    have renders : Emission.Renders ⟨referringProgram, .standard, ⟨1⟩⟩ s.emissionState
        t.tables.known false (.binary (.scalar .int) .add (.scalar .int)
          (.name (.scalar .int) ⟨0⟩) (.call (.scalar .int) (.function ⟨1⟩ []) [])) :=
      .body hheading hlist (.head _) (by simp [Stmt.exprsAll, Stmt.exprs])
    refine ⟨s, _, reached, renders, ?_, ?_⟩
    · obtain ⟨constants, -⟩ := named _ _ _ renders ⟨0⟩ (by simp [Expr.referred]) ⟨0⟩
      have declared : ((lowerAll referringProgram).run
          (new .standard)).2.tables.known.literals.get? ⟨0⟩ = none := by decide +kernel
      obtain literal | ⟨-, text⟩ := constants _ (.head _) rfl rfl
      · rw [declared] at literal
        cases literal
      · rw [text, if_pos (.inl (by decide))]
        rfl
    · obtain ⟨-, functions⟩ := named _ _ _ renders ⟨1⟩ (by simp [Expr.referred]) ⟨0⟩
      rw [functions _ (.head _) rfl, if_pos (.inl (by decide))]
      rfl
  · cases hfailed

end Session
end ColorLowering
