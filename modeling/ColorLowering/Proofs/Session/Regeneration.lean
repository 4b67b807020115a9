import ColorLowering.Proofs.Rerun.Module
import ColorLowering.Proofs.Session.Chunks

/-!
# Modules that are lowered again

A session in which modules are lowered in their order, each as often as it is asked for, remembers
what it entered of each of them: a later module enters constants and texts of its own, and one that
was lowered before enters nothing. So a module that was lowered once is lowered alike ever after.
-/
namespace ColorLowering
namespace Session

/-- The modules are lowered for the first time in the order of the program. -/
def InModuleOrder (done : List ModuleId) : Prop :=
  ∀ before m later, done = before ++ m :: later → m ∉ before → ∀ n ∈ before, n.index < m.index

theorem InModuleOrder.before {done later : List ModuleId} (h : InModuleOrder (done ++ later)) :
    InModuleOrder done := by
  rintro before m rest rfl
  exact h before m (rest ++ later) (by rw [List.append_assoc, List.cons_append])

/-- The module was lowered in `first`. The session `s` knows all that was entered then and keeps the
texts that were kept then. -/
structure Remembers (p : Program) (target : Target) (m : ModuleId) (first s : Session) : Prop where
  lowered : ∃ out, Emission.module (p.module m) ⟨p, target, m⟩ first.emissionState = (.ok (), out) ∧
    Emission.SameSettled ⟨p, target, m⟩ out.tables.known s.tables.known ∧
    out.tables.defaultTexts.Extends s.tables.defaultTexts
  kept : first.tables.defaultTexts.kept.isSome

section
variable {p : Program} {target : Target} {m : ModuleId} {first s s' : Session}

/-- A module that is remembered adds the same as when it was lowered first, and changes no table
beside the entry routines. -/
theorem Remembers.again (h : Remembers p target m first s) (hp : p.InDependencyOrder)
    (hfirst : first.target = target) (hs : s.target = target) (hmargin : first.AtMargin)
    (hmargin' : s.AtMargin) :
    s.outcome p m = first.outcome p m ∧ (first.outcome p m).result = .ok () ∧
      (s.next p (.module m)).tables.known = s.tables.known ∧
      (s.next p (.module m)).tables.defaultTexts = s.tables.defaultTexts := by
  obtain ⟨⟨out, hrun, hknown, htexts⟩, hkept⟩ := h
  have replays := @Emission.replays_module ⟨p, target, m⟩ _ _ _ hp hkept hrun hknown
  have start : first.emissionState.Redone s.emissionState s.tables.known s.tables.defaultTexts
      first.emissionState s.emissionState :=
    ⟨rfl, rfl, .start (hmargin.1.trans hmargin'.1.symm), .start (hmargin.2.trans hmargin'.2.symm),
      [], by simp, by simp⟩
  obtain ⟨out', hrun', hsame, hfull, ⟨⟨header, hh, hh'⟩, -⟩, ⟨⟨body, hb, hb'⟩, -⟩, entries, he,
    he'⟩ := replays.again htexts start
  rw [← hfirst] at hrun
  rw [← hs] at hrun'
  have outcome := outcome_of_module_ok hrun hh hb he
  have next : s.next p (.module m) = ⟨s.target, out'.tables, out'.header, out'.body⟩ :=
    congrArg Prod.snd (run_of_module_ok hrun')
  refine ⟨?_, by rw [outcome], by rw [next, hsame], by rw [next, hfull]⟩
  rw [outcome, outcome_of_module_ok hrun' hh' hb' he']

theorem Remembers.later (h : Remembers p target m first s) {n : ModuleId} (hn : m.index < n.index)
    (hknown : Classification.SameOff p n s.tables.known s'.tables.known)
    (htexts : s.tables.defaultTexts.Extends s'.tables.defaultTexts) :
    Remembers p target m first s' := by
  obtain ⟨⟨out, hrun, ⟨hentry, hcalled⟩, hout⟩, hkept⟩ := h
  refine ⟨⟨out, hrun, ⟨fun symbol hsymbol => ?_, fun f hhome => ?_⟩, hout.trans htexts⟩, hkept⟩
  · exact (hentry symbol hsymbol).trans (hknown.entry symbol (hsymbol n hn))
  · have other : (p.symbol f).module ≠ some n := by
      intro howner
      obtain rfl := Option.some.inj ((of_decide_eq_true hhome).symm.trans howner)
      exact Nat.lt_irrefl _ hn
    rw [hcalled f hhome, Table.contains, Table.contains, hknown.called f other]

theorem Remembers.unchanged (h : Remembers p target m first s)
    (hknown : s'.tables.known = s.tables.known)
    (htexts : s'.tables.defaultTexts = s.tables.defaultTexts) :
    Remembers p target m first s' := by
  obtain ⟨hlowered, hkept⟩ := h
  rw [← hknown, ← htexts] at hlowered
  exact ⟨hlowered, hkept⟩

end

/-- Where a list ends in `n`, an element that stands in it is the last or stands before it. -/
theorem split_of_concat {α : Type} {done before later : List α} {m n : α}
    (h : done ++ [n] = before ++ m :: later) :
    (before = done ∧ m = n) ∨ ∃ rest, done = before ++ m :: rest := by
  rcases later.eq_nil_or_concat with rfl | ⟨rest, last, rfl⟩
  · obtain ⟨hbefore, hlast⟩ := List.append_inj' h rfl
    exact .inl ⟨hbefore.symm, (List.cons.inj hlast).1.symm⟩
  · rw [List.concat_eq_append, ← List.cons_append, ← List.append_assoc] at h
    exact .inr ⟨rest, List.append_inj_left' h rfl⟩

variable {p : Program} {target : Target} {done : List ModuleId} {s : Session}

/-- What a session remembers of every module, from the first time that it was lowered. -/
def RemembersAll (p : Program) (target : Target) (done : List ModuleId) (s : Session) : Prop :=
  ∀ before m later first, done = before ++ m :: later → m ∉ before →
    Reached p target before first → Remembers p target m first s

/-- A module that was lowered before changes nothing, and a new one enters what no module before it
mentions. -/
theorem RemembersAll.lowered (h : RemembersAll p target done s) (hp : p.InDependencyOrder)
    (hs : Reached p target done s) (hkept : s.tables.defaultTexts.kept.isSome) {n : ModuleId}
    (horder : InModuleOrder (done ++ [n])) {s' : Session}
    (hrun : (lowerModule p n).run s = (.ok (), s')) :
    RemembersAll p target (done ++ [n]) s' ∧ s'.tables.defaultTexts.kept.isSome := by
  by_cases hn : n ∈ done
  · obtain ⟨before, later, rfl, hnew⟩ := List.eq_append_cons_of_mem hn
    obtain ⟨first, hfirst⟩ := hs.exists_before
    obtain ⟨-, -, hknown, htexts⟩ := (h before n later first rfl hnew hfirst).again hp
      hfirst.target_eq hs.target_eq hfirst.atMargin hs.atMargin
    have next : s.next p (.module n) = s' := congrArg Prod.snd hrun
    rw [next] at hknown htexts
    refine ⟨fun before' m later' first' hdone hnew' hfirst' => ?_, by rwa [htexts]⟩
    obtain ⟨rfl, rfl⟩ | ⟨rest, hdone⟩ := split_of_concat hdone
    · exact absurd hn hnew'
    · exact (h before' m rest first' hdone hnew' hfirst').unchanged hknown htexts
  · obtain ⟨out, -, hout, rfl⟩ | ⟨_, _, herror, -, -⟩ := lowerModule_cases hrun
    · rw [hs.target_eq] at hout
      obtain ⟨hknown, -, -⟩ := @Emission.sameOff_module ⟨p, target, n⟩ _ _ hout
      have replays := @Emission.replays_module ⟨p, target, n⟩ _ _ _ hp hkept hout
        ⟨fun _ _ => .refl _ _, fun _ _ => rfl⟩
      refine ⟨fun before m later first hdone hnew hfirst => ?_, replays.kept⟩
      obtain ⟨rfl, rfl⟩ | ⟨rest, rfl⟩ := split_of_concat hdone
      · obtain rfl := hfirst.unique hs
        exact ⟨⟨out, hout, ⟨fun _ _ => .refl _ _, fun _ _ => rfl⟩, .refl _⟩, hkept⟩
      · have earlier : m.index < n.index := horder _ n [] rfl hn m (by simp)
        exact (h before m rest first rfl hnew hfirst).later earlier hknown replays.texts
    · cases herror

theorem Reached.remembers (hp : p.InDependencyOrder) (hs : Reached p target done s)
    (horder : InModuleOrder done) :
    RemembersAll p target done s ∧ s.tables.defaultTexts.kept.isSome := by
  induction hs with
  | new => exact ⟨fun before m later first hdone => by simp at hdone, rfl⟩
  | failed hs hrun ih =>
      rw [eq_of_lowerModule_error hs.atMargin hrun]
      exact ih horder
  | lowered hs hrun ih =>
      obtain ⟨hremembers, hkept⟩ := ih horder.before
      exact hremembers.lowered hp hs hkept horder hrun

/-- In a program in dependency order, lowered in the order of its modules, a module that was lowered
once is lowered again whenever it is asked for, whatever was lowered or failed in the meantime. It
adds to both outputs what it added the first time and the same entry routines once more, and leaves
every other table as it is. -/
theorem regeneration_is_stable (hp : p.InDependencyOrder) {before later : List ModuleId}
    {m : ModuleId} {first : Session} (hfirst : Reached p target before first) (hnew : m ∉ before)
    (hs : Reached p target (before ++ m :: later) s)
    (horder : InModuleOrder (before ++ m :: later)) :
    let again := s.next p (.module m)
    let added := first.outcome p m
    s.outcome p m = added ∧ added.result = .ok () ∧
      again.header.text = s.header.text ++ added.header ∧
      again.body.text = s.body.text ++ added.body ∧
      again.tables.entries = s.tables.entries ++ added.entries ∧
      again.tables.known = s.tables.known ∧
      again.tables.defaultTexts = s.tables.defaultTexts := by
  intro again added
  obtain ⟨hremembers, -⟩ := hs.remembers hp horder
  obtain ⟨houtcome, hresult, hknown, htexts⟩ :=
    (hremembers before m later first rfl hnew hfirst).again hp hfirst.target_eq hs.target_eq
      hfirst.atMargin hs.atMargin
  obtain ⟨header, body⟩ := text_next (p := p) hs.atMargin m
  have entries := entries_next (p := p) hs.atMargin m
  rw [houtcome] at entries
  have given : (s.answer p (.module m)).header = added.header ∧
      (s.answer p (.module m)).body = added.body :=
    ⟨congrArg Outcome.header houtcome, congrArg Outcome.body houtcome⟩
  rw [given.1] at header
  rw [given.2] at body
  exact ⟨houtcome, hresult, header, body, entries, hknown, htexts⟩

def callOfDefaults : Expr :=
  .call (.scalar .int) (.function ⟨1⟩ [.optional "p" (.scalar .int) ⟨0⟩ (.name (.scalar .int) ⟨3⟩),
    .optional "q" (.scalar .int) ⟨1⟩ (.unary (.scalar .int) .neg (.name (.scalar .int) ⟨0⟩))]) []

/-- The first module has a literal, a variable and a placeholder for it; the second calls the function
of the first in a constant and in its entry routine. -/
def orderedProgram : Program where
  symbols := #[⟨"k", some ⟨0⟩, .var (.scalar .int) false⟩,
    ⟨"f", some ⟨0⟩, .fn [⟨"p", .scalar .int, .read⟩, ⟨"q", .scalar .int, .read⟩] (.scalar .int)⟩,
    ⟨"y", some ⟨0⟩, .var (.scalar .int) true⟩, ⟨"f$p", some ⟨0⟩, .var (.scalar .int) false⟩,
    ⟨"x", some ⟨1⟩, .var (.scalar .int) false⟩, ⟨"main", some ⟨1⟩, .fn [] (.scalar .int)⟩]
  modules := #[⟨"first", "", [], [⟨⟨0⟩, some (.literal (.scalar .int) (.scalar (.int 3)))⟩,
      ⟨⟨2⟩, none⟩, ⟨⟨3⟩, some (.name (.scalar .int) ⟨2⟩)⟩], [⟨⟨1⟩, []⟩]⟩,
    ⟨"second", "", [], [⟨⟨4⟩, some callOfDefaults⟩], [⟨⟨5⟩, [.ret (some callOfDefaults)]⟩]⟩]

theorem settled_orderedProgram {m : ModuleId} {symbol : SymbolId}
    (h : m = ⟨0⟩ → symbol ≠ ⟨4⟩) : orderedProgram.Settled m symbol := by
  intro later hlater c hc
  obtain ⟨m⟩ := m
  obtain ⟨_ | _ | n⟩ := later
  · exact absurd hlater (Nat.not_lt_zero m)
  · obtain rfl : m = 0 := Nat.lt_one_iff.mp hlater
    obtain rfl := List.mem_singleton.mp hc
    exact (h rfl).symm
  · cases hc

theorem constants_orderedProgram {c : Constant}
    (hc : c ∈ (orderedProgram.module ⟨0⟩).constants) :
    c = ⟨⟨0⟩, some (.literal (.scalar .int) (.scalar (.int 3)))⟩ ∨ c = ⟨⟨2⟩, none⟩ ∨
      c = ⟨⟨3⟩, some (.name (.scalar .int) ⟨2⟩)⟩ := by
  simpa [orderedProgram, Program.module] using hc

theorem inDependencyOrder_orderedProgram : orderedProgram.InDependencyOrder where
  constants := by
    constructor <;> rintro ⟨_ | _ | n⟩ <;> simp [orderedProgram, Program.module, Program.symbol]
  functions := by
    rintro ⟨_ | _ | n⟩ <;> simp [orderedProgram, Program.module, Program.symbol]
  mentions {m portable e} he symbol hsymbol := by
    apply settled_orderedProgram
    rintro rfl
    -- The first module reads its literal and its variable.
    cases he with
    | constant hc hinit =>
        obtain rfl | rfl | rfl := constants_orderedProgram hc
        · cases hinit
          cases hsymbol
        · cases hinit
        · cases hinit
          obtain rfl : symbol = ⟨2⟩ := by
            simpa [Expr.mentioned, Expr.referred, Expr.names] using hsymbol
          decide
    | body hf he =>
        obtain rfl := List.mem_singleton.mp hf
        cases he
  ordered {m before c after init} hcs hinit symbol hsymbol := by
    obtain ⟨_ | _ | n⟩ := m
    · have listed : c ∈ (orderedProgram.module ⟨0⟩).constants := by simp [hcs]
      obtain rfl | rfl | rfl := constants_orderedProgram listed
      · cases hinit
        cases hsymbol
      · cases hinit
      · cases hinit
        obtain rfl : symbol = ⟨2⟩ := by
          simpa [Expr.mentioned, Expr.referred, Expr.names] using hsymbol
        rcases before with _ | ⟨a, _ | ⟨b, _ | ⟨d, rest⟩⟩⟩ <;>
          simp [orderedProgram, Program.module] at hcs
        simp [Unlisted, hcs]
    · obtain ⟨rfl, rfl⟩ : before = [] ∧ after = [] := by
        cases before <;> simp_all [orderedProgram, Program.module]
      obtain rfl : c = ⟨⟨4⟩, some callOfDefaults⟩ := by
        simpa [orderedProgram, Program.module, eq_comm] using hcs
      cases hinit
      obtain rfl | rfl | rfl : symbol = ⟨1⟩ ∨ symbol = ⟨3⟩ ∨ symbol = ⟨0⟩ := by
        simpa [callOfDefaults, Expr.mentioned, Expr.referred, Expr.referredAll,
          Expr.referredAfter, Expr.names, Expr.namesAll] using hsymbol
      all_goals simp [Unlisted]
    · simp [orderedProgram, Program.module] at hcs

/-- The second module is lowered alike after the first module was lowered again. -/
theorem second_lowered_again :
    let first := (new .standard).after orderedProgram [.module ⟨0⟩]
    let s := (new .standard).after orderedProgram [.module ⟨0⟩, .module ⟨1⟩, .module ⟨0⟩]
    let again := s.next orderedProgram (.module ⟨1⟩)
    let added := first.outcome orderedProgram ⟨1⟩
    s.outcome orderedProgram ⟨1⟩ = added ∧ added.result = .ok () ∧
      again.header.text = s.header.text ++ added.header ∧
      again.body.text = s.body.text ++ added.body ∧
      again.tables.entries.map EntryRoutine.qualifiedName =
        ["second::second", "second::second"] ∧
      again.tables.known = s.tables.known ∧
      again.tables.defaultTexts = s.tables.defaultTexts := by
  intro first s
  have start : Reached orderedProgram .standard [] (new .standard) := .new
  have lowered : loweredBy orderedProgram (new .standard) [.module ⟨0⟩] = [⟨0⟩] := rfl
  have lowered' : loweredBy orderedProgram (new .standard)
      [.module ⟨0⟩, .module ⟨1⟩, .module ⟨0⟩] = [⟨0⟩] ++ ⟨1⟩ :: [⟨0⟩] := rfl
  have hfirst : Reached orderedProgram .standard [⟨0⟩] first := lowered ▸ start.after [.module ⟨0⟩]
  have hs : Reached orderedProgram .standard ([⟨0⟩] ++ ⟨1⟩ :: [⟨0⟩]) s :=
    lowered' ▸ start.after [.module ⟨0⟩, .module ⟨1⟩, .module ⟨0⟩]
  have order : InModuleOrder ([⟨0⟩] ++ ⟨1⟩ :: [⟨0⟩]) := by
    rintro (_ | ⟨a, _ | ⟨b, _ | ⟨c, rest⟩⟩⟩) m later h hnew n hn
    · cases hn
    · obtain ⟨rfl, rfl, -⟩ : ⟨0⟩ = a ∧ ⟨1⟩ = m ∧ [⟨0⟩] = later := by simpa using h
      obtain rfl := List.mem_singleton.mp hn
      decide
    · obtain ⟨rfl, -, rfl, -⟩ : ⟨0⟩ = a ∧ ⟨1⟩ = b ∧ ⟨0⟩ = m ∧ [] = later := by simpa using h
      exact absurd List.mem_cons_self hnew
    · simp at h
  obtain ⟨houtcome, hresult, header, body, entries, hknown, htexts⟩ :=
    regeneration_is_stable inDependencyOrder_orderedProgram hfirst (by decide) hs order
  have names : (s.next orderedProgram (.module ⟨1⟩)).tables.entries.map
      EntryRoutine.qualifiedName = ["second::second", "second::second"] := by
    rw [entries]
    decide +kernel
  exact ⟨houtcome, hresult, header, body, names, hknown, htexts⟩

end Session
end ColorLowering
