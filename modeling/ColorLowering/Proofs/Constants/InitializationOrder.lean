import ColorLowering.Proofs.Constants.Callees
import ColorLowering.Proofs.Constants.Section
import ColorLowering.Proofs.Constants.Startup

/-!
# Static initialization order

A constant is initialized after every constant that its initializer mentions and that is listed
before it. Where the earlier one waits for the module initializer, it is registered as deferred by
the time the later one is looked at, so that the later one waits too.
-/
namespace ColorLowering

namespace Emission

variable {ctx : ModuleContext} {s u : EmissionState}

/-- Where the first of two constants waits for the module initializer and the second mentions it,
the second waits too. -/
theorem isDeferred_of_mentions {before between after : List Constant} {a b : Constant} {init : Expr}
    {out : List LoweredConstant}
    (hrun : constantList (before ++ a :: (between ++ b :: after)) ctx s = (.ok out, u))
    (ha : ctx.program.declares s.tables.known a) (hb : ctx.program.declares s.tables.known b)
    (hbetween : ∀ c ∈ between, c.symbol ≠ a.symbol) (hhome : ctx.isHome a.symbol)
    (hwhole : (ctx.program.symbol a.symbol).ty = .string → a.init.any Expr.isAggregate = false)
    (hinit : b.init = some init) (hmentions : init.Mentions a.symbol) :
    ∃ early first middle second late, out = early ++ first :: (middle ++ second :: late) ∧
      first.symbol = a.symbol ∧ second.symbol = b.symbol ∧
      (first.isDeferred → second.isDeferred) := by
  obtain ⟨early, t₁, fromA, hearly, hfromA, rfl⟩ := constantList_append_ok hrun
  obtain ⟨outA, t₂, afterA, hrunA, hafterA, rfl⟩ := constantList_cons_ok hfromA
  obtain ⟨middle, t₃, fromB, hmiddle, hfromB, rfl⟩ := constantList_append_ok hafterA
  obtain ⟨outB, t₄, late, hrunB, -, rfl⟩ := constantList_cons_ok hfromB
  have literals₁ := ((literals_frame.within_constantList before).done hearly).1
  have literals₂ := ((literals_frame.within_constant a).done hrunA).1.trans literals₁
  have literals₃ := ((literals_frame.within_constantList between).done hmiddle).1.trans literals₂
  obtain ⟨first, rfl, hfirst⟩ := constant_declares hrunA (by
    rwa [Program.declares, literals₁])
  obtain ⟨second, rfl, hsecond⟩ := constant_declares hrunB (by
    rwa [Program.declares, literals₃])
  refine ⟨early, first, middle, second, late, rfl, hfirst.symbol, hsecond.symbol, ?_⟩
  intro hdeferred
  have hlegacy : ctx.target.isModern = false := by
    cases hmodern : ctx.target.isModern with
    | false => rfl
    | true =>
        obtain ⟨hstring, haggregate⟩ := hfirst.chosen hdeferred hmodern
        rw [hwhole hstring] at haggregate
        cases haggregate
  -- the registration of `a` is still there when `b` is looked at
  have registered : t₃.tables.known.isDeferred a.symbol = true := by
    obtain ⟨strategy, hknown, hchosen⟩ := hfirst.known
    have kept := (sameEntry_of_constantList hmiddle hbetween).strategy.symm
    rw [hknown, Classification.addGlobal, Table.get?_insert_self, hchosen hdeferred] at kept
    simp [Classification.isDeferred, kept]
  have hreads : ctx.readsDeferred t₃.tables.known init = true := by
    refine List.any_eq_true.mpr ⟨a.symbol, hmentions.mem_names, ?_⟩
    simp [hhome, registered]
  apply hsecond.forced
  simp [isForced, hinit, hlegacy, hreads]

end Emission

/-- Every constant of the module is listed once and by its owner, and no string is given leaf by
leaf. -/
structure Program.ListsConstants (p : Program) (m : ModuleId) : Prop where
  once : ((p.module m).constants.map Constant.symbol).Nodup
  owned : ∀ c ∈ (p.module m).constants, (p.symbol c.symbol).module = some m
  whole : ∀ c ∈ (p.module m).constants,
    (p.symbol c.symbol).ty = .string → c.init.any Expr.isAggregate = false

namespace Program.ListsConstants

variable {p : Program} {m : ModuleId} (hm : p.ListsConstants m)
include hm

/-- Of two constants, one listed after the other, the parts around them hold neither. -/
theorem separate {before between after : List Constant} {a b : Constant}
    (hlist : (p.module m).constants = before ++ a :: (between ++ b :: after)) :
    ∀ c ∈ between, c.symbol ≠ a.symbol := by
  have once := hm.once
  rw [hlist] at once
  intro c hc heq
  simp only [List.map_append, List.map_cons, List.nodup_append, List.nodup_cons] at once
  apply once.2.1.1
  rw [List.mem_append]
  exact .inl (List.mem_map.mpr ⟨c, hc, heq⟩)

end Program.ListsConstants

namespace Session

/-- The constants of a lowered module are initialized in the order of their mentions: what is
declared for them is what their initializers are lowered to where they are listed, and of two that
are declared, the later one mentioning the earlier, nothing of the later one runs at startup before
the earlier one is done. -/
theorem initialized_after_mentions (p : Program) (m : ModuleId) (hm : p.ListsConstants m)
    {target : Target} {steps : List Step} {s' : Session}
    (hrun : (lowerModule p m).run ((new target).after p steps) = (.ok (), s')) :
    ∃ start closed lowered,
      WritesConstants p m ((new target).after p steps) s' start closed lowered ∧
      ∀ before a between b after init,
        (p.module m).constants = before ++ a :: (between ++ b :: after) →
        p.declares s'.tables.known a → p.declares s'.tables.known b →
        b.init = some init → init.Mentions a.symbol →
        Precedes a.symbol b.symbol (startup lowered) ∧
          ∀ first ∈ lowered, ∀ second ∈ lowered, first.symbol = a.symbol →
            second.symbol = b.symbol → first.isDeferred → second.isDeferred := by
  have margin := atMargin_after p (atMargin_new target) steps
  obtain ⟨_, start, _, closed, lowered, -, -, hlist, -, hsame, hwrites⟩ :=
    writesConstants_of_run margin hrun
  refine ⟨start, closed, lowered, hwrites, ?_⟩
  intro before a between b after init hconstants ha hb hinit hmentions
  have once : (lowered.map LoweredConstant.symbol).Nodup := by
    rw [Emission.symbols_of_constantList hlist]
    exact hm.once.sublist (List.filter_sublist.map _)
  rw [hsame] at ha hb
  have hmem : a ∈ (p.module m).constants := by simp [hconstants]
  rw [hconstants] at hlist
  obtain ⟨early, first, middle, second, late, rfl, hfirst, hsecond, hdeferred⟩ :=
    Emission.isDeferred_of_mentions hlist ha hb (hm.separate hconstants)
      (by simpa [ModuleContext.isHome] using hm.owned a hmem) (hm.whole a hmem) hinit hmentions
  rw [← hfirst, ← hsecond]
  refine ⟨precedes_startup once hdeferred, ?_⟩
  intro x hx y hy hxa hyb hxDeferred
  have hx : x = first := List.inj_on_of_nodup_map once hx (by simp) hxa
  have hy : y = second := List.inj_on_of_nodup_map once hy (by simp) hyb
  rw [hy]
  exact hdeferred (hx ▸ hxDeferred)

def mentioningProgram : Program where
  symbols := #[⟨"a", some ⟨0⟩, .var (.struct "Pair" [("x", .scalar .int)]) false⟩,
    ⟨"b", some ⟨0⟩, .var (.scalar .int) false⟩]
  modules := #[⟨"pairs", "", [.struct "Pair" [("x", .scalar .int)]],
    [⟨⟨0⟩, some (.aggregate (.struct "Pair" [("x", .scalar .int)])
      [.literal (.scalar .int) (.scalar (.int 1))])⟩,
     ⟨⟨1⟩, some (.member (.scalar .int)
      (.name (.struct "Pair" [("x", .scalar .int)]) ⟨0⟩) "x")⟩], []⟩]

theorem mentioned_member_initialized_first : ∃ s' start closed lowered,
    (lowerModule mentioningProgram ⟨0⟩).run (new ⟨.legacy, .single, "Imath"⟩) = (.ok (), s') ∧
      WritesConstants mentioningProgram ⟨0⟩ (new ⟨.legacy, .single, "Imath"⟩) s' start closed
        lowered ∧
      Precedes ⟨0⟩ ⟨1⟩ (startup lowered) ∧ lowered.map LoweredConstant.isDeferred = [true, true] := by
  have listed : mentioningProgram.ListsConstants ⟨0⟩ :=
    ⟨by decide, by decide, by simp [Program.module, Program.symbol, mentioningProgram, Symbol.ty]⟩
  have run : (lowerModule mentioningProgram ⟨0⟩).run (new ⟨.legacy, .single, "Imath"⟩) =
      (.ok (), ((lowerModule mentioningProgram ⟨0⟩).run (new ⟨.legacy, .single, "Imath"⟩)).2) :=
    Prod.ext rfl rfl
  obtain ⟨start, closed, lowered, writes, order⟩ :=
    @initialized_after_mentions mentioningProgram ⟨0⟩ listed _ [] _ run
  obtain ⟨precedes, waits⟩ := order [] _ [] _ [] _ rfl rfl rfl rfl (.object .name)
  refine ⟨_, start, closed, lowered, run, writes, precedes, ?_⟩
  have declared : List.Forall₂ _ (mentioningProgram.module ⟨0⟩).constants lowered := writes.declared
  obtain _ | ⟨⟨before, after, early, t, -, -, hfirst⟩,
    _ | ⟨⟨_, _, _, _, -, -, hsecond⟩, _ | _⟩⟩ := declared
  have first_waits := hfirst.isDeferred_of_strategy rfl rfl
  have second_waits := waits _ List.mem_cons_self _ (.tail _ List.mem_cons_self) hfirst.symbol
    hsecond.symbol first_waits
  simp [first_waits, second_waits]

end Session
end ColorLowering
