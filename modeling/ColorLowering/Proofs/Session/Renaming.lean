import ColorLowering.Proofs.Agreement.Apart
import ColorLowering.Proofs.Agreement.Renaming
import ColorLowering.Proofs.Session.Tables

/-!
# Eliminated constants leave no name

A program has the same code under any name of a constant that became a literal, and of a placeholder
under any name that marks it as one. Modules before the one that lists the constant do not refer to
it, and from its survey or its text on every reference is written without its name.
-/
namespace ColorLowering

namespace Program

/-- No function and no variable of a body is a constant. -/
def KeepsConstantsApart (p : Program) : Prop :=
  ∀ m, ∀ c ∈ (p.module m).constants, ∀ other, ∀ f ∈ (p.module other).functions,
    f.symbol ≠ c.symbol ∧ c.symbol ∉ Stmt.localsAll f.body

/-- The symbol is referred to by the module that owns it and by later ones, omitted arguments
included. -/
def RefersLater (p : Program) (x : SymbolId) : Prop :=
  ∀ m portable e, p.RendersAt m portable e → x ∈ e.referred →
    ∃ owner, (p.symbol x).module = some owner ∧ owner.index ≤ m.index

theorem RefersLater.not_mem_referred {p : Program} {x : SymbolId} (h : p.RefersLater x)
    {owner m : ModuleId} (howner : (p.symbol x).module = some owner) (hm : m.index < owner.index)
    {portable : Bool} {e : Expr} (he : p.RendersAt m portable e) : x ∉ e.referred := by
  intro hmem
  obtain ⟨other, hother, hle⟩ := h m portable e he hmem
  rw [howner] at hother
  obtain rfl := Option.some.inj hother
  exact absurd hm (Nat.not_lt.mpr hle)

/-- The constant is a placeholder with an initializer. It is referred to as the default of a
parameter alone, and a constant of its module whose initializer omits the argument comes after
it. -/
structure StandsForDefault (p : Program) (c : Constant) : Prop where
  placeholder : (p.symbol c.symbol).isPlaceholder = true
  initialized : c.init ≠ none
  named : ∀ m portable e, p.RendersAt m portable e → c.symbol ∉ e.named
  ordered : ∀ m before d after init, (p.module m).constants = before ++ d :: after →
    d.init = some init → c.symbol ∈ init.referred → (p.symbol c.symbol).module = some m →
      ∃ other ∈ before, other.symbol = c.symbol

theorem moduleIds_split (p : Program) {m : ModuleId} (h : m.index < p.modules.size) :
    ∃ earlier later, p.moduleIds = earlier ++ m :: later ∧
      (∀ other ∈ earlier, other.index < m.index) ∧ ∀ other ∈ later, m.index < other.index := by
  obtain ⟨rest, hrest⟩ := Nat.exists_eq_add_of_lt h
  refine ⟨(List.range m.index).map ModuleId.mk,
    (List.range rest).map fun i => ⟨m.index + (i + 1)⟩, ?_, ?_, ?_⟩
  · rw [moduleIds, hrest, Nat.add_assoc, List.range_add, List.range_succ_eq_map]
    simp [Function.comp_def]
  · simp
  · simp

theorem lt_of_mem_constants {p : Program} {m : ModuleId} {c : Constant}
    (h : c ∈ (p.module m).constants) : m.index < p.modules.size := by
  by_contra hbound
  have outside : p.modules[m.index]? = none := Array.getElem?_eq_none (Nat.not_lt.mp hbound)
  simp [Program.module, Array.getD_eq_getD_getElem?, outside] at h

end Program

theorem Program.OwnsConstants.ne_of_split {p : Program} (hp : p.OwnsConstants) {m : ModuleId}
    {before after : List Constant} {c : Constant}
    (hcs : (p.module m).constants = before ++ c :: after) :
    (∀ d ∈ before, d.symbol ≠ c.symbol) ∧ ∀ d ∈ after, d.symbol ≠ c.symbol := by
  have once := hp.once m
  rw [hcs, List.map_append, List.map_cons, List.nodup_append] at once
  obtain ⟨-, hrest, hapart⟩ := once
  refine ⟨fun d hd => hapart _ (List.mem_map_of_mem hd) _ List.mem_cons_self, fun d hd heq => ?_⟩
  exact (List.nodup_cons.mp hrest).1 (heq ▸ List.mem_map_of_mem hd)

namespace Session

variable {p : Program} {x : SymbolId} {name : String} {s u : Session}

theorem forM_cons_ok {m : ModuleId} {ms : List ModuleId} :
    ((m :: ms).forM (lowerModule p)).run s = (.ok (), u) ↔
      ∃ t, (lowerModule p m).run s = (.ok (), t) ∧
        (ms.forM (lowerModule p)).run t = (.ok (), u) := by
  simp only [List.forM_eq_forM, List.forM_cons, run_bind]
  rcases (lowerModule p m).run s with ⟨e | _, s'⟩
  · constructor
    · intro h
      cases h
    · rintro ⟨_, h, -⟩
      cases h
  · constructor
    · exact fun h => ⟨s', rfl, h⟩
    · rintro ⟨_, h, hrest⟩
      cases h
      exact hrest

theorem forM_append_ok {ms ns : List ModuleId} :
    ((ms ++ ns).forM (lowerModule p)).run s = (.ok (), u) ↔
      ∃ t, (ms.forM (lowerModule p)).run s = (.ok (), t) ∧
        (ns.forM (lowerModule p)).run t = (.ok (), u) := by
  induction ms generalizing s with
  | nil =>
      constructor
      · exact fun h => ⟨s, rfl, h⟩
      · rintro ⟨_, h, hrest⟩
        cases h
        exact hrest
  | cons m rest ih =>
      rw [List.cons_append, forM_cons_ok]
      constructor
      · rintro ⟨v, hfirst, hrest⟩
        obtain ⟨t, hms, hns⟩ := ih.mp hrest
        exact ⟨t, forM_cons_ok.mpr ⟨v, hfirst, hms⟩, hns⟩
      · rintro ⟨t, hms, hns⟩
        obtain ⟨v, hfirst, hrest⟩ := forM_cons_ok.mp hms
        exact ⟨v, hfirst, ih.mpr ⟨t, hrest, hns⟩⟩

theorem forM_rename {ms : List ModuleId} {Holds : Classification → Prop}
    (hstep : ∀ m ∈ ms, ∀ s s', Holds s.tables.known → (lowerModule p m).run s = (.ok (), s') →
      (lowerModule (p.rename x name) m).run s = (.ok (), s') ∧ Holds s'.tables.known)
    (hs : Holds s.tables.known) (hrun : (ms.forM (lowerModule p)).run s = (.ok (), u)) :
    (ms.forM (lowerModule (p.rename x name))).run s = (.ok (), u) := by
  induction ms generalizing s with
  | nil => exact hrun
  | cons m rest ih =>
      obtain ⟨t, hfirst, hrest⟩ := forM_cons_ok.mp hrun
      obtain ⟨hfirst', ht⟩ := hstep m List.mem_cons_self s t hs hfirst
      exact forM_cons_ok.mpr
        ⟨t, hfirst', ih (fun m' h => hstep m' (List.mem_cons_of_mem m h)) ht hrest⟩

theorem literal_of_forM {ms : List ModuleId}
    (hms : ∀ m ∈ ms, Unlisted (p.module m).constants x)
    (hrun : (ms.forM (lowerModule p)).run s = (.ok (), u)) :
    u.tables.known.literals.contains x = s.tables.known.literals.contains x := by
  induction ms generalizing s with
  | nil =>
      cases hrun
      rfl
  | cons m rest ih =>
      obtain ⟨t, hfirst, hrest⟩ := forM_cons_ok.mp hrun
      obtain ⟨out, -, hout, rfl⟩ | ⟨_, _, hfailed, -, -⟩ := lowerModule_cases hfirst
      · have same := (@Emission.sameOff_module ⟨p, s.target, m⟩ _ _ hout).1.entry x
          (hms m List.mem_cons_self)
        rw [ih (fun m' h => hms m' (List.mem_cons_of_mem m h)) hrest, Table.contains,
          Table.contains]
        exact congrArg Option.isSome same.literal.symm
      · cases hfailed

section
variable (hp : p.OwnsConstants) (hapart : p.KeepsConstantsApart) {owner : ModuleId}
  (howner : (p.symbol x).module = some owner)
include hp howner

theorem unlisted_of_ne {m : ModuleId} (hm : m ≠ owner) : Unlisted (p.module m).constants x := by
  rintro c hc rfl
  rw [hp.owned m c hc] at howner
  exact hm (Option.some.inj howner)

include hapart

/-- A module that does not list the constant is lowered alike where it hides it. -/
theorem lowerModule_rename {c : Constant} (hc : c ∈ (p.module owner).constants)
    (hsymbol : c.symbol = x) {m : ModuleId} (hm : m ≠ owner) {Holds : Classification → Prop}
    (hsteady : ∀ ctx : ModuleContext, ctx.Steady (Emission.Shared Holds))
    (hhides : ∀ portable e, p.RendersAt m portable e → ∀ k, Holds k → Emission.Hides x k e)
    {s s' : Session} (hs : Holds s.tables.known) (hrun : (lowerModule p m).run s = (.ok (), s')) :
    (lowerModule (p.rename x name) m).run s = (.ok (), s') ∧ Holds s'.tables.known := by
  have hx : (p.symbol x).module ≠ none := by simp [howner]
  obtain ⟨out, -, hout, rfl⟩ | ⟨_, _, hfailed, -, -⟩ := lowerModule_cases hrun
  · have agrees := @Emission.agrees_module_rename ⟨p, s.target, m⟩ x name hx Holds (hsteady _)
      hhides (unlisted_of_ne hp howner hm)
      (fun f hf => by
        have apart := hapart owner c hc m f hf
        rwa [hsymbol] at apart) s.emissionState
    obtain ⟨hrenamed, hholds⟩ := agrees.same hs hout
    exact ⟨run_of_module_ok hrenamed, hholds⟩
  · cases hfailed

theorem forM_rename_of_hides {c : Constant} (hc : c ∈ (p.module owner).constants)
    (hsymbol : c.symbol = x) {ms : List ModuleId} (hms : ∀ m ∈ ms, m ≠ owner)
    {Holds : Classification → Prop}
    (hsteady : ∀ ctx : ModuleContext, ctx.Steady (Emission.Shared Holds))
    (hhides : ∀ m ∈ ms, ∀ portable e, p.RendersAt m portable e → ∀ k, Holds k →
      Emission.Hides x k e)
    (hs : Holds s.tables.known) (hrun : (ms.forM (lowerModule p)).run s = (.ok (), u)) :
    (ms.forM (lowerModule (p.rename x name))).run s = (.ok (), u) :=
  forM_rename (fun m hm _ _ hs hrun => lowerModule_rename hp hapart howner hc hsymbol (hms m hm)
    hsteady (hhides m hm) hs hrun) hs hrun

omit howner in
/-- The module that lists the constant is lowered alike under either name, if the constant becomes a
literal. -/
theorem lowerModule_rename_literal {c : Constant} (hc : c ∈ (p.module owner).constants)
    {s s' : Session} (hs : s.tables.known.literals.contains c.symbol = false)
    (hs' : s'.tables.known.literals.contains c.symbol = true)
    (hrun : (lowerModule p owner).run s = (.ok (), s')) :
    (lowerModule (p.rename c.symbol name) owner).run s = (.ok (), s') := by
  have hx : (p.symbol c.symbol).module ≠ none := by simp [hp.owned owner c hc]
  obtain ⟨before, after, hcs⟩ := List.append_of_mem hc
  obtain ⟨hbefore, hafter⟩ := hp.ne_of_split hcs
  obtain ⟨out, -, hout, rfl⟩ | ⟨_, _, hfailed, -, -⟩ := lowerModule_cases hrun
  · exact run_of_module_ok (@Emission.module_rename_literal ⟨p, s.target, owner⟩ c.symbol name hx
      before after c _ _ hcs rfl hbefore hafter (hapart owner c hc owner) hs hs' hout)
  · cases hfailed

omit howner in
/-- So it is if the constant is a placeholder under both names, and then its text is known. -/
theorem lowerModule_rename_placeholder {c : Constant} (hc : c ∈ (p.module owner).constants)
    (hstands : p.StandsForDefault c) (hname : isPlaceholderName name = true) {s s' : Session}
    (hrun : (lowerModule p owner).run s = (.ok (), s')) :
    (lowerModule (p.rename c.symbol name) owner).run s = (.ok (), s') ∧
      Emission.Known c.symbol s'.tables.known := by
  have howner := hp.owned owner c hc
  have hx : (p.symbol c.symbol).module ≠ none := by simp [howner]
  obtain ⟨before, after, hcs⟩ := List.append_of_mem hc
  obtain ⟨hbefore, hafter⟩ := hp.ne_of_split hcs
  obtain ⟨init, hinit⟩ := Option.ne_none_iff_exists'.mp hstands.initialized
  have fresh : c.symbol ∉ init.referred := by
    intro hmem
    obtain ⟨d, hd, hsymbol⟩ := hstands.ordered owner before c after init hcs hinit hmem howner
    exact hbefore d hd hsymbol
  have unused : ∀ d ∈ before, ∀ init, d.init = some init → c.symbol ∉ init.referred := by
    intro d hd init hinit hmem
    obtain ⟨first, second, rfl⟩ := List.append_of_mem hd
    obtain ⟨other, hother, hsymbol⟩ := hstands.ordered owner first d (second ++ c :: after) init
      (by rw [hcs, List.append_assoc, List.cons_append]) hinit hmem howner
    exact hbefore other (List.mem_append_left _ hother) hsymbol
  have placeholder : ((p.rename c.symbol name).symbol c.symbol).isPlaceholder = true := by
    have given := hstands.placeholder
    rw [Symbol.isPlaceholder, Bool.and_eq_true] at given
    rw [Program.symbol_rename_self hx, Symbol.isPlaceholder, Bool.and_eq_true]
    exact ⟨given.1, hname⟩
  obtain ⟨out, -, hout, rfl⟩ | ⟨_, _, hfailed, -, -⟩ := lowerModule_cases hrun
  · obtain ⟨hrenamed, hknown⟩ := @Emission.module_rename_placeholder ⟨p, s.target, owner⟩ c.symbol
      name hx before after c _ _ hcs rfl (fun d hd => ⟨hbefore d hd, unused d hd⟩) hafter
      hstands.placeholder placeholder init hinit fresh (hstands.named owner)
      (hapart owner c hc owner) hout
    exact ⟨run_of_module_ok hrenamed, hknown⟩
  · cases hfailed

omit howner in
/-- A program that refers to a constant from its own module and later ones alone has the same code
under any name of the constant, once the constant ended up a literal, and under any name that marks
a placeholder, if the constant is one and stands for omitted arguments alone. -/
theorem code_without_name (target : Target) {c : Constant} (hc : c ∈ (p.module owner).constants)
    (hlater : p.RefersLater c.symbol) (name : String)
    (h : ((lowerAll p).run (new target)).2.tables.known.literals.contains c.symbol = true ∨
      p.StandsForDefault c ∧ isPlaceholderName name = true)
    {code : LoweredCode} (hcode : lower p target = .ok code) :
    lower (p.rename c.symbol name) target = .ok code := by
  have howner := hp.owned owner c hc
  obtain ⟨earlier, later, hsplit, hearlier, hlaterIds⟩ :=
    p.moduleIds_split (Program.lt_of_mem_constants hc)
  have apart_earlier : ∀ m ∈ earlier, m ≠ owner := fun m hm heq =>
    Nat.lt_irrefl _ (heq ▸ hearlier m hm)
  have apart_later : ∀ m ∈ later, m ≠ owner := fun m hm heq =>
    Nat.lt_irrefl _ (heq ▸ hlaterIds m hm)
  unfold lower at hcode ⊢
  cases hrun : (lowerAll p).run (new target) with
  | mk result u =>
      rw [hrun] at hcode h
      cases result with
      | error e => cases hcode
      | ok _ =>
          suffices renamed : (lowerAll (p.rename c.symbol name)).run (new target) = (.ok (), u) by
            rw [renamed]
            exact hcode
          unfold lowerAll at hrun ⊢
          change ((p.moduleIds).forM (lowerModule (p.rename c.symbol name))).run (new target) = _
          rw [hsplit] at hrun ⊢
          obtain ⟨s, hfirst, hrest⟩ := forM_append_ok.mp hrun
          obtain ⟨t, hown, hlast⟩ := forM_cons_ok.mp hrest
          -- Up to the module that lists it nothing refers to the constant.
          have first : (earlier.forM (lowerModule (p.rename c.symbol name))).run (new target) =
              (.ok (), s) :=
            forM_rename_of_hides hp hapart howner hc rfl apart_earlier
              (fun _ => Emission.steady_any)
              (fun m hm _ e he _ _ =>
                have unreferred := hlater.not_mem_referred howner (hearlier m hm) he
                .inr ⟨fun hnamed => unreferred (e.named_subset_referred hnamed), .inr unreferred⟩)
              trivial hfirst
          refine forM_append_ok.mpr ⟨s, first, forM_cons_ok.mpr ⟨t, ?_⟩⟩
          obtain hliteral | ⟨hstands, hname⟩ := h
          · have before : s.tables.known.literals.contains c.symbol = false :=
              literal_of_forM (fun m hm => unlisted_of_ne hp howner (apart_earlier m hm)) hfirst
            have after : t.tables.known.literals.contains c.symbol = true := by
              rw [← literal_of_forM (fun m hm => unlisted_of_ne hp howner (apart_later m hm)) hlast]
              exact hliteral
            exact ⟨lowerModule_rename_literal hp hapart hc before after hown,
              forM_rename_of_hides hp hapart howner hc rfl apart_later
                (fun _ => Emission.steady_literal) (fun _ _ _ _ _ _ hk => .inl hk) after hlast⟩
          · obtain ⟨hrenamed, hknown⟩ :=
              lowerModule_rename_placeholder hp hapart hc hstands hname hown
            exact ⟨hrenamed, forM_rename_of_hides hp hapart howner hc rfl apart_later
              (fun _ => Emission.steady_known)
              (fun m _ portable e he _ hk =>
                hk.imp_right fun h => ⟨hstands.named m portable e he, .inl h⟩) hknown hlast⟩

end

def callOfH : Expr := .call (.scalar .int) (.function ⟨4⟩ []) []

def callWithPlaceholder : Expr :=
  .call (.scalar .int) (.function ⟨2⟩ [.optional "p" (.scalar .int) ⟨0⟩
    (.name (.scalar .int) ⟨1⟩)]) []

def eliminatingProgram : Program where
  symbols := #[⟨"k", some ⟨0⟩, .var (.scalar .int) false⟩,
    ⟨"f$p", some ⟨0⟩, .var (.scalar .int) false⟩,
    ⟨"f", some ⟨0⟩, .fn [⟨"p", .scalar .int, .read⟩] (.scalar .int)⟩,
    ⟨"x", some ⟨0⟩, .var (.scalar .int) false⟩, ⟨"h", some ⟨0⟩, .fn [] (.scalar .int)⟩,
    ⟨"g", some ⟨1⟩, .fn [] (.scalar .int)⟩]
  modules := #[⟨"m", "", [], [⟨⟨0⟩, some (.literal (.scalar .int) (.scalar (.int 3)))⟩,
      ⟨⟨1⟩, some callOfH⟩, ⟨⟨3⟩, some callWithPlaceholder⟩], [⟨⟨4⟩, []⟩, ⟨⟨2⟩, []⟩]⟩,
    ⟨"n", "", [], [], [⟨⟨5⟩, [.ret (some (.binary (.scalar .int) .add (.scalar .int)
      (.name (.scalar .int) ⟨0⟩) callWithPlaceholder))]⟩]⟩]

/-- All that either module renders refers to the placeholder for an omitted argument alone. -/
theorem not_named_eliminatingProgram {m : ModuleId} {portable : Bool} {e : Expr}
    (h : eliminatingProgram.RendersAt m portable e) : ⟨1⟩ ∉ e.named := by
  obtain ⟨_ | _ | n⟩ := m
  · cases h with
    | constant hc hinit =>
        simp [eliminatingProgram, Program.module] at hc
        rcases hc with rfl | rfl | rfl <;>
          (obtain rfl := Option.some.inj hinit; decide)
    | body hf he =>
        simp [eliminatingProgram, Program.module] at hf
        rcases hf with rfl | rfl <;> cases he
  · cases h with
    | constant hc _ => cases hc
    | body hf he =>
        obtain rfl := List.mem_singleton.mp hf
        obtain rfl := List.mem_singleton.mp he
        decide
  · cases h with
    | constant hc _ => cases hc
    | body hf _ => cases hf

theorem keepsConstantsApart_eliminatingProgram : eliminatingProgram.KeepsConstantsApart := by
  intro m c hc other f hf
  have constants : c.symbol ∈ [(⟨0⟩ : SymbolId), ⟨1⟩, ⟨3⟩] := by
    obtain ⟨_ | _ | n⟩ := m <;> simp [eliminatingProgram, Program.module] at hc
    rcases hc with rfl | rfl | rfl <;> decide
  have functions : f.symbol ∈ [(⟨2⟩ : SymbolId), ⟨4⟩, ⟨5⟩] ∧ Stmt.localsAll f.body = [] := by
    obtain ⟨_ | _ | n⟩ := other <;> simp [eliminatingProgram, Program.module] at hf
    · rcases hf with rfl | rfl <;> exact ⟨by decide, rfl⟩
    · subst hf
      exact ⟨by decide, rfl⟩
  rw [functions.2]
  refine ⟨fun heq => ?_, List.not_mem_nil⟩
  rw [heq] at functions
  revert constants
  simp only [List.mem_cons, List.not_mem_nil, or_false]
  rintro (h | h | h) <;> simp [h] at functions

/-- The placeholder is listed before the constant that needs it. -/
theorem standsForDefault_eliminatingProgram :
    eliminatingProgram.StandsForDefault ⟨⟨1⟩, some callOfH⟩ := by
  refine ⟨rfl, Option.some_ne_none _, fun m portable e he => not_named_eliminatingProgram he, ?_⟩
  intro m before d after init hcs hinit hmem hm
  obtain rfl : m = ⟨0⟩ := (Option.some.inj hm).symm
  rcases before with _ | ⟨_, _ | ⟨other, _⟩⟩
  · cases hcs
    obtain rfl := Option.some.inj hinit
    cases hmem
  · cases hcs
    obtain rfl := Option.some.inj hinit
    exact absurd hmem (by decide)
  · obtain rfl : ⟨⟨1⟩, some callOfH⟩ = other := (List.cons.inj (List.cons.inj hcs).2).1
    exact ⟨_, .tail _ (.head _), rfl⟩

/-- Neither name is in the code of the program. -/
theorem eliminated_constants_renamed :
    (lower eliminatingProgram .standard).isOk ∧
    lower (eliminatingProgram.rename ⟨0⟩ "x") .standard = lower eliminatingProgram .standard ∧
    lower (eliminatingProgram.rename ⟨1⟩ "$") .standard = lower eliminatingProgram .standard := by
  have owns : eliminatingProgram.OwnsConstants := by
    constructor <;> rintro ⟨_ | _ | n⟩ <;>
      simp [eliminatingProgram, Program.module, Program.symbol]
  have apart := keepsConstantsApart_eliminatingProgram
  have first : ∀ symbol ∈ [(⟨0⟩ : SymbolId), ⟨1⟩], eliminatingProgram.RefersLater symbol := by
    intro symbol hsymbol m portable e _ _
    refine ⟨⟨0⟩, ?_, Nat.zero_le _⟩
    simp only [List.mem_cons, List.not_mem_nil, or_false] at hsymbol
    rcases hsymbol with rfl | rfl <;> rfl
  obtain ⟨code, hcode⟩ : ∃ code, lower eliminatingProgram .standard = .ok code := by
    have ok : (lower eliminatingProgram .standard).isOk := by decide +kernel
    cases h : lower eliminatingProgram .standard with
    | ok code => exact ⟨code, rfl⟩
    | error e => rw [h] at ok; cases ok
  have literal : ⟨⟨0⟩, some (.literal (.scalar .int) (.scalar (.int 3)))⟩ ∈
      (eliminatingProgram.module ⟨0⟩).constants := .head _
  have placeholder : ⟨⟨1⟩, some callOfH⟩ ∈ (eliminatingProgram.module ⟨0⟩).constants :=
    .tail _ (.head _)
  rw [hcode]
  exact ⟨rfl,
    code_without_name owns apart .standard literal (first _ (by simp)) "x"
      (.inl (by decide +kernel)) hcode,
    code_without_name owns apart .standard placeholder (first _ (by simp)) "$"
      (.inr ⟨standsForDefault_eliminatingProgram, rfl⟩) hcode⟩

end Session
end ColorLowering
