import ColorLowering.Proofs.Constants.Deferral
import ColorLowering.Proofs.Emission.Parts
import ColorLowering.Proofs.Session.Entries
import ColorLowering.Proofs.Session.Tables

/-!
# Deferral is exact

When a module is lowered for the first time nothing is known of its symbols, so what is registered
of its constants in the end is what the pass over them found. The constants registered as deferred
are then those that the rules of the dialect make wait, and they alone are declared without an
initializer where they have one.
-/
namespace ColorLowering
namespace Session

variable {p : Program} {target : Target} {done : List ModuleId} {s s' : Session} {m : ModuleId}

theorem Reached.aligned (hs : Reached p target done s) : s.tables.known.Aligned :=
  hs.tables_of (P := fun _ tables => tables.known.Aligned) Classification.aligned_empty
    fun before hrun => (Emission.aligned_frame.within_module _).done hrun before

/-- Before its first pass no symbol of a module is known to be deferred, or to need the module
initializer. -/
theorem Reached.unregistered (hs : Reached p target done s) (hp : p.OwnsConstants) (hm : m ∉ done)
    {surveyed : EmissionState}
    (hsurvey : Emission.surveyConstants (p.module m).constants ⟨p, s.target, m⟩ s.emissionState =
      (.ok (), surveyed)) {symbol : SymbolId} (hhome : (p.symbol symbol).module = some m) :
    s.tables.known.needsModuleInit.contains symbol = false ∧
      surveyed.tables.known.isDeferred symbol = false := by
  have foreign : ∀ n ∈ done, Unlisted (p.module n).constants symbol := by
    intro n hn c hc heq
    have owner := hp.owned n c hc
    rw [heq, hhome] at owner
    exact hm (Option.some.inj owner ▸ hn)
  have entry := hs.sameEntry_empty foreign
  have aligned := (Emission.aligned_frame.within_surveyConstants _).done hsurvey hs.aligned
  have globals := ((Emission.entered_frame.within_surveyConstants _).done hsurvey).1
  have absent : surveyed.tables.known.strategies.contains symbol = false := by
    rw [aligned.strategies, globals, Table.contains]
    exact congrArg Option.isSome entry.global.symm
  refine ⟨congrArg Option.isSome entry.needsModuleInit.symm, ?_⟩
  rw [Table.contains, Option.isSome_eq_false_iff, Option.isNone_iff_eq_none] at absent
  simp [Classification.isDeferred, absent]

section
variable {start surveyed t : EmissionState} {lowered : List LoweredConstant}
  (hp : p.OwnsConstants) (hs : Reached p target done s) (hm : m ∉ done)
  (hsurvey : Emission.surveyConstants (p.module m).constants ⟨p, target, m⟩ s.emissionState =
    (.ok (), surveyed))
  (hstart : start.tables.known = surveyed.tables.known)
  (hlist : Emission.constantList (p.module m).constants ⟨p, target, m⟩ start = (.ok lowered, t))
include hp hs hm hsurvey hstart hlist

theorem registers_modern (hmodern : target.isModern = true) :
    Emission.RegistersAsDeferred ⟨p, target, m⟩
      (fun c => p.declares start.tables.known c = true ∧ c.IsSpelledOut p)
      (p.module m).constants t.tables.known := by
  have free (k : Classification) (c : Constant) :
      Emission.isForced ⟨p, target, m⟩ k c = false := Emission.not_isForced_of_isModern hmodern k c
  rw [← hs.target_eq] at hsurvey
  refine Emission.registersAsDeferred_of_constantList (hp.once m) ?_ ?_ ?_
    (List.append_nil _).symm hlist
  · intro symbol hhome
    rw [hstart, (hs.unregistered hp hm hsurvey (of_decide_eq_true hhome)).2]
    simp
  · intro c _ homitted hD
    rw [homitted] at hD
    cases hD.1
  · intro before c after k _ _ _ hdeclared
    rw [and_iff_right hdeclared]
    simp [free, hmodern]

theorem registers_legacy (hlegacy : target.isModern = false) :
    Emission.RegistersAsDeferred ⟨p, target, m⟩ (p.Defers target m (p.declares start.tables.known))
      (p.module m).constants t.tables.known := by
  rw [← hs.target_eq] at hsurvey
  refine Emission.registersAsDeferred_of_constantList (hp.once m) ?_ ?_ ?_
    (List.append_nil _).symm hlist
  · intro symbol hhome
    rw [hstart, (hs.unregistered hp hm hsurvey (of_decide_eq_true hhome)).2]
    simp
  · intro c hc homitted hD
    obtain ⟨before, after, hcs⟩ := List.append_of_mem hc
    rw [((Program.defers_iff (hp.once m) hcs).mp hD).1] at homitted
    cases homitted
  · intro before c after k hcs hneeds hearlier hdeclared
    have home : ∀ d ∈ (p.module m).constants, (p.symbol d.symbol).module = some m := hp.owned m
    have listed : c ∈ (p.module m).constants := by simp [hcs]
    have placeholder : (p.symbol c.symbol).isPlaceholder = false := by
      rw [Program.declares, Bool.and_eq_true] at hdeclared
      simpa using hdeclared.2
    have calls : k.needsModuleInit.contains c.symbol = true ↔ c.CallsHome p m := by
      have noted := Emission.needsModuleInit_of_surveyConstants hsurvey (hp.once m) hcs
        (by rw [← hstart]; exact hdeclared)
      rw [Table.contains, hneeds, hstart]
      refine noted.trans (or_iff_right ?_)
      have absent := (hs.unregistered hp hm hsurvey (home c listed)).1
      rw [emissionState, absent]
      exact Bool.false_ne_true
    -- what a symbol of the module is registered as tells which constant before `c` it is
    have mentions : (∃ init, c.init = some init ∧ ∃ symbol, init.Mentions symbol ∧
        ModuleContext.isHome ⟨p, target, m⟩ symbol = true ∧ k.isDeferred symbol = true) ↔
        ∃ earlier ∈ before, p.Defers target m (p.declares start.tables.known) earlier ∧
          c.Mentions earlier.symbol := by
      constructor
      · rintro ⟨init, hinit, symbol, hmentions, hhome, hdeferred⟩
        obtain ⟨earlier, hmem, rfl, hD⟩ := (hearlier symbol hhome).mp hdeferred
        exact ⟨earlier, hmem, hD, init, hinit, hmentions⟩
      · rintro ⟨earlier, hmem, hD, init, hinit, hmentions⟩
        have hhome : ModuleContext.isHome ⟨p, target, m⟩ earlier.symbol = true :=
          decide_eq_true (home earlier (by simp [hcs, hmem]))
        exact ⟨init, hinit, earlier.symbol, hmentions, hhome,
          (hearlier _ hhome).mpr ⟨earlier, hmem, rfl, hD⟩⟩
    rw [Program.defers_iff (hp.once m) hcs, and_iff_right hdeclared, ← mentions,
      Emission.isForced_iff, ← calls]
    simp only [placeholder, hlegacy, true_and]
    constructor
    · rintro (htype | hstring | hcalls | ⟨init, hinit, hmentions⟩)
      · exact .inr (.inl htype)
      · exact .inr (.inr hstring)
      · obtain ⟨init, _, hinit, -, -⟩ := calls.mp hcalls
        exact .inl ⟨init, hinit, .inl hcalls⟩
      · exact .inl ⟨init, hinit, .inr hmentions⟩
    · rintro (⟨init, hinit, hcalls | hmentions⟩ | htype | hstring)
      · exact .inr (.inr (.inl hcalls))
      · exact .inr (.inr (.inr ⟨init, hinit, hmentions⟩))
      · exact .inl htype
      · exact .inr (.inl hstring)

end

/-- In a module that is lowered for the first time, the declared constants registered as deferred are
in the modern dialect the strings that are given leaf by leaf. In the legacy dialect they are the
least set that holds these, the structs and containers and what calls home, and every constant that
mentions an earlier one of the set. They are declared without `const` and without initializer, and
any other constant is declared `const` unless it is writable. -/
theorem deferral_is_exact (hp : p.OwnsConstants) (hs : Reached p target done s) (hm : m ∉ done)
    (hrun : (lowerModule p m).run s = (.ok (), s')) :
    ∃ start closed lowered, WritesConstants p m s s' start closed lowered ∧
      List.Forall₂ (ModuleContext.WritesConstant ⟨p, target, m⟩ s'.tables.known)
        ((p.module m).constants.filter (p.declares s'.tables.known)) lowered ∧
      ∀ c ∈ (p.module m).constants, p.declares s'.tables.known c = true →
        (s'.tables.known.isDeferred c.symbol = true ↔ match target.dialect with
          | .modern => c.IsSpelledOut p
          | .legacy => p.Defers target m (p.declares s'.tables.known) c) := by
  obtain ⟨surveyed, start, t, closed, lowered, hsurvey, hstart, hlist, hknown, hsame, hwrites⟩ :=
    writesConstants_of_run hs.atMargin hrun
  rw [hs.target_eq] at hsurvey hlist
  have lines := Emission.writesConstant_of_constantList (hp.once m) hlist
  refine ⟨start, closed, lowered, hwrites, ?_, fun c hc hdeclared => ?_⟩
  · rw [hsame, hknown]
    exact lines
  · have home : ModuleContext.isHome ⟨p, target, m⟩ c.symbol = true :=
      decide_eq_true (hp.owned m c hc)
    have one {D : Constant → Prop} : (∃ d ∈ (p.module m).constants, d.symbol = c.symbol ∧ D d) ↔
        D c := by
      constructor
      · rintro ⟨d, hd, heq, hD⟩
        exact List.inj_on_of_nodup_map (hp.once m) hd hc heq ▸ hD
      · exact fun hD => ⟨c, hc, rfl, hD⟩
    rw [hsame] at hdeclared ⊢
    rw [hknown]
    cases hdialect : target.dialect with
    | modern =>
        have hmodern : target.isModern = true := by simp [Target.isModern, hdialect]
        have registers := registers_modern hp hs hm hsurvey hstart hlist hmodern
        rw [registers c.symbol home, one, and_iff_right hdeclared]
    | legacy =>
        have hlegacy : target.isModern = false := by simp [Target.isModern, hdialect]
        have registers := registers_legacy hp hs hm hsurvey hstart hlist hlegacy
        rw [registers c.symbol home, one]

def chainedProgram : Program where
  symbols := #[⟨"a", some ⟨0⟩, .var (.struct "Pair" [("x", .scalar .int)]) false⟩,
    ⟨"b", some ⟨0⟩, .var (.scalar .int) false⟩, ⟨"c", some ⟨0⟩, .var (.scalar .int) true⟩,
    ⟨"d", some ⟨0⟩, .var (.scalar .int) false⟩]
  modules := #[⟨"pairs", "", [.struct "Pair" [("x", .scalar .int)]],
    [⟨⟨0⟩, none⟩,
     ⟨⟨1⟩, some (.member (.scalar .int)
      (.name (.struct "Pair" [("x", .scalar .int)]) ⟨0⟩) "x")⟩,
     ⟨⟨2⟩, some (.unary (.scalar .int) .neg (.name (.scalar .int) ⟨1⟩))⟩,
     ⟨⟨3⟩, none⟩], []⟩]

theorem chained_constants_deferred : ∃ s' lowered,
    (lowerModule chainedProgram ⟨0⟩).run (new ⟨.legacy, .single, "Imath"⟩) = (.ok (), s') ∧
    chainedProgram.Defers ⟨.legacy, .single, "Imath"⟩ ⟨0⟩
      (chainedProgram.declares s'.tables.known)
      ⟨⟨2⟩, some (.unary (.scalar .int) .neg (.name (.scalar .int) ⟨1⟩))⟩ ∧
    ¬ chainedProgram.Defers ⟨.legacy, .single, "Imath"⟩ ⟨0⟩
      (chainedProgram.declares s'.tables.known) ⟨⟨3⟩, none⟩ ∧
    List.Forall₂ (ModuleContext.WritesConstant ⟨chainedProgram, ⟨.legacy, .single, "Imath"⟩, ⟨0⟩⟩
      s'.tables.known) (chainedProgram.module ⟨0⟩).constants lowered := by
  have owns : chainedProgram.OwnsConstants := by
    constructor <;> rintro ⟨_ | n⟩ <;> simp [chainedProgram, Program.module, Program.symbol]
  have start : Reached chainedProgram ⟨.legacy, .single, "Imath"⟩ [] (new _) := .new
  have run : (lowerModule chainedProgram ⟨0⟩).run (new ⟨.legacy, .single, "Imath"⟩) =
      (.ok (), ((lowerModule chainedProgram ⟨0⟩).run (new ⟨.legacy, .single, "Imath"⟩)).2) :=
    eq_ok_of_fst (by decide +kernel)
  obtain ⟨_, _, lowered, -, lines, deferred⟩ :=
    deferral_is_exact owns start List.not_mem_nil run
  refine ⟨_, lowered, run, ?_, fun h => ?_, lines⟩
  · exact (deferred _ (.tail _ (.tail _ (.head _))) rfl).mp rfl
  · have waits := (deferred ⟨⟨3⟩, none⟩ (.tail _ (.tail _ (.tail _ (.head _)))) rfl).mpr h
    exact Bool.false_ne_true waits

end Session
end ColorLowering
