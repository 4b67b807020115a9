import ColorLowering.Proofs.Rerun.Constants

/-!
# Modules that are repeated

A module is lowered by what its constants and those of the modules before it were entered as. Where
that is known as the module left it, and the texts that it kept are kept, it is lowered alike once
more and enters nothing.
-/
namespace ColorLowering
namespace Emission

open Classification

/-- Both have the same to say of the symbols that the module of `ctx` may mention, and of the calls of
its own functions. -/
structure SameSettled (ctx : ModuleContext) (k final : Classification) : Prop where
  entry : ∀ symbol, ctx.program.Settled ctx.module symbol → SameEntry k final symbol
  called : ∀ f, ctx.isHome f → k.calledInInit.contains f = final.calledInInit.contains f

variable {ctx : ModuleContext} {final : Classification} {s t : EmissionState}
  (hp : ctx.program.InDependencyOrder)
include hp

theorem isHome_of_mem {f : Function} (hf : f ∈ (ctx.program.module ctx.module).functions) :
    ctx.isHome f.symbol :=
  decide_eq_true (hp.functions ctx.module f hf)

/-- What stands before the constants depends on the survey and on the calls that it noted. -/
theorem replays_heading (hkept : s.tables.defaultTexts.kept.isSome)
    (hrun : heading (ctx.program.module ctx.module) ctx s = (.ok (), t))
    (hentry : ∀ symbol, ctx.program.Settled ctx.module symbol →
      SurveyedAlike t.tables.known final symbol)
    (hcalled : ∀ f, ctx.isHome f →
      t.tables.known.calledInInit.contains f = final.calledInInit.contains f) :
    Replays ctx final (heading (ctx.program.module ctx.module)) () s t := by
  let Calls (k : Classification) : Prop :=
    ∀ f, ctx.isHome f → k.calledInInit.contains f = final.calledInInit.contains f
  have H : StatementProperty ctx ctx (fun k k' => Calls k ∧ k' = final) (fun _ _ => False)
      (Repeats ctx Calls final) := Repeats.property fun h => h.elim
  obtain ⟨surveyed, opened, hsurvey, hopening, hforward⟩ := heading_ok hrun
  have opens := (known_frame.within_opening _).done hopening
  have declares := (known_frame.within_forwardDeclarations _).done hforward
  rw [declares, opens] at hentry hcalled
  have surveys : Replays ctx final (surveyConstants (ctx.program.module ctx.module).constants) ()
      s surveyed :=
    replays_surveyConstants hp (List.nil_append _).symm hkept hsurvey hentry fun f hhome hf => by
      rwa [← hcalled f hhome]
  obtain ⟨hopened, opening⟩ := H.opening _ surveyed () opened hcalled surveys.kept hopening
  obtain ⟨-, forward⟩ := H.forwardDeclarations
    (fun f hf => ⟨rfl, fun k k' hk => by rw [hk.2, hk.1 f.symbol (isHome_of_mem hp hf)]⟩)
    opened () t hopened opening.kept hforward
  rw [heading_eq]
  exact surveys.bind (opening.bind forward)

/-- Once a module has ended, it is repeated wherever its entries are known and its texts kept. -/
theorem replays_module (hkept : s.tables.defaultTexts.kept.isSome)
    (hrun : module (ctx.program.module ctx.module) ctx s = (.ok (), t))
    (hfinal : SameSettled ctx t.tables.known final) :
    Replays ctx final (module (ctx.program.module ctx.module)) () s t := by
  have F : FunctionProperty ctx ctx (fun k k' => SameSettled ctx k final ∧ k' = final)
      (ctx.program.RendersAt ctx.module)
      (Repeats ctx (fun k => SameSettled ctx k final) final) :=
    Repeats.functionProperty fun he k hk symbol hsymbol =>
      (hk.entry symbol (hp.mentions he symbol (List.mem_append_left _ hsymbol))).reference
  obtain ⟨_, start, hheading, hrest⟩ := bind_eq_ok.mp hrun
  obtain ⟨lowered, declared, hconstants, hrest⟩ := bind_eq_ok.mp hrest
  obtain ⟨_, closed, hinit, hending⟩ := bind_eq_ok.mp hrest
  have closes := ((known_frame.property ctx).moduleInitializer _).done hinit
  have ends := (known_frame.within_ending _).done hending
  rw [ends, closes] at hfinal
  have noted := ((literals_frame.within_constants _).done hconstants).2.2
  have surveyed := (surveyed_frame.within_constants _).done hconstants
  have heads : Replays ctx final (heading (ctx.program.module ctx.module)) () s start :=
    replays_heading hp hkept hheading
      (fun symbol hsymbol => (surveyed symbol).trans (hfinal.entry symbol hsymbol).surveyed)
      fun f hhome => by rw [← noted, hfinal.called f hhome]
  have lowers := replays_constants hp (List.nil_append _).symm heads.kept hfinal.entry hconstants
  obtain ⟨hclosed, fills⟩ :=
    F.moduleInitializer _ declared () closed hfinal lowers.kept hinit
  obtain ⟨-, finishes⟩ := F.ending
    (fun f hf => ⟨rfl, fun k k' hk => by rw [hk.2, hk.1.called f.symbol (isHome_of_mem hp hf)]⟩)
    (fun _ _ _ _ => rfl) (fun f hf e he => .body hf he) closed () t hclosed fills.kept hending
  exact heads.bind (lowers.bind (fills.bind finishes))

end Emission
end ColorLowering
