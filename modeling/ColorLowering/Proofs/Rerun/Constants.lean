import ColorLowering.Proofs.Rerun.Emission
import ColorLowering.Proofs.Rerun.Entries

/-!
# Constants that are repeated

A constant is surveyed and lowered by what is known of the constants listed before it, which is the
same when all of them are known. It takes the same route for the second time and enters what is
entered already.
-/
namespace ColorLowering

def ModuleContext.noted (ctx : ModuleContext) (k : Classification) (symbol : SymbolId)
    (init : Expr) : Classification :=
  if (ctx.homeCallees init).isEmpty || (ctx.program.symbol symbol).isPlaceholder then
    k.addCallees (ctx.homeCallees init)
  else (k.addCallees (ctx.homeCallees init)).addNeedsModuleInit symbol

namespace Emission

open Classification

variable {ctx : ModuleContext} {final : Classification} {s t : EmissionState}

theorem Replays.read {α : Type} {f : ModuleContext → Emission α} {a : α}
    (h : Replays ctx final (f ctx) a s t) : Replays ctx final (MonadReader.read >>= f) a s t :=
  ⟨h.kept, h.texts, h.again⟩

theorem Replays.unchanged {x : Emission Unit} {k : Classification}
    (hkept : s.tables.defaultTexts.kept.isSome)
    (h : ∀ s' : EmissionState, s'.tables.known = final → x ctx s' = (.ok (), s')) :
    Replays ctx final x () s (s.withKnown k) where
  kept := hkept
  texts := .refl _
  again {_ _ s' _} _ hs := ⟨s', h s' hs.known, { hs with }⟩

section
variable {symbol : SymbolId} {init : Expr}

theorem surveyCallees_apply (symbol : SymbolId) (init : Expr) : surveyCallees symbol init ctx s =
    (.ok (), s.withKnown (ctx.noted s.tables.known symbol init)) := by
  simp only [surveyCallees, ModuleContext.noted, bind_apply, read_apply, known_apply]
  split <;> rfl

theorem replays_surveyCallees (hkept : s.tables.defaultTexts.kept.isSome)
    (hrun : surveyCallees symbol init ctx s = (.ok (), t))
    (hown : SurveyedAlike t.tables.known final symbol)
    (hcalled : ∀ f, ctx.isHome f → t.tables.known.calledInInit.contains f →
      final.calledInInit.contains f) :
    Replays ctx final (surveyCallees symbol init) () s t := by
  rw [surveyCallees_apply] at hrun
  obtain ⟨-, rfl⟩ := Prod.mk.inj hrun
  have callees : ∀ f ∈ ctx.homeCallees init, final.calledInInit.contains f := by
    intro f hf
    apply hcalled f (List.mem_filter.mp hf).2
    change (ctx.noted s.tables.known symbol init).calledInInit.contains f
    have noted := (contains_addCallees s.tables.known (ctx.homeCallees init) f).mpr (.inr hf)
    unfold ModuleContext.noted
    split
    · exact noted
    · exact noted
  have again : ctx.noted final symbol init = final := by
    unfold ModuleContext.noted
    rw [addCallees_eq_self callees]
    split
    · rfl
    · rename_i hnoted
      change SurveyedAlike (ctx.noted s.tables.known symbol init) final symbol at hown
      rw [ModuleContext.noted, if_neg hnoted] at hown
      exact hown.addNeedsModuleInit_eq
  apply Replays.unchanged hkept
  intro s' hs'
  rw [surveyCallees_apply, hs', again, ← hs']
  rfl

/-- A literal that was entered is entered again with the same text and the same value. -/
theorem replays_surveyLiteral (hkept : s.tables.defaultTexts.kept.isSome)
    (hliteral : init.isLiteral s.tables.known.literals)
    (hrun : surveyLiteral symbol init ctx s = (.ok (), t))
    (hrefers : ∀ name ∈ init.referred, SurveyedAlike s.tables.known final name)
    (hown : SurveyedAlike t.tables.known final symbol) :
    Replays ctx final (surveyLiteral symbol init) () s t := by
  have folded : ctx.folded? final symbol init = ctx.folded? s.tables.known symbol init := by
    rw [ModuleContext.folded?, ModuleContext.folded?,
      Expr.value?_congr init fun name hname => (hrefers name hname).folded]
  rw [surveyLiteral_apply] at hrun
  cases hvalue : ctx.folded? s.tables.known symbol init with
  | some value =>
      rw [hvalue] at hrun
      cases hrun
      have again : final.addLiteral symbol value.text (some value) = final := hown.addLiteral_eq
      apply Replays.unchanged hkept
      intro s' hs'
      rw [surveyLiteral_apply, hs', folded, hvalue]
      dsimp only
      rw [setKnown_apply, again, ← hs']
      rfl
  | none =>
      rw [hvalue] at hrun
      obtain ⟨text, u, htext, hrun⟩ := bind_eq_ok.mp hrun
      cases hrun
      have again : final.addLiteral symbol text none = final := hown.addLiteral_eq
      have replays := Replays.rendering (Rendering.recalls_renderAs_of_isLiteral hliteral
        (fun name hname => (hrefers name hname).literal) _) hkept htext
      refine ⟨replays.kept, replays.texts, fun hfull hs => ?_⟩
      obtain ⟨u', htext', hu⟩ := replays.again hfull hs
      refine ⟨u', ?_, { hu with }⟩
      rw [surveyLiteral_apply, hs.known, folded, hvalue]
      refine bind_eq_ok.mpr ⟨text, u', htext', ?_⟩
      rw [setKnown_apply, again, ← hu.known]
      rfl

end

theorem replays_surveyConstant {c : Constant} (hkept : s.tables.defaultTexts.kept.isSome)
    (hrun : surveyConstant c ctx s = (.ok (), t))
    (hrefers : ∀ init, c.init = some init → ∀ name ∈ init.referred,
      SurveyedAlike s.tables.known final name)
    (hown : SurveyedAlike t.tables.known final c.symbol)
    (hcalled : ∀ f, ctx.isHome f → t.tables.known.calledInInit.contains f →
      final.calledInInit.contains f) :
    Replays ctx final (surveyConstant c) () s t := by
  unfold surveyConstant at hrun ⊢
  cases hinit : c.init with
  | none =>
      rw [hinit] at hrun
      cases hrun
      exact .pure hkept ()
  | some init =>
      rw [hinit] at hrun
      have refers := hrefers init hinit
      have literal : init.isLiteral s.tables.known.literals = init.isLiteral final.literals := by
        apply Expr.isLiteral_congr
        intro name hname
        rw [Table.contains, Table.contains, (refers name hname).literal]
      obtain ⟨k, u, hknown, hrun⟩ := bind_eq_ok.mp hrun
      cases hknown
      apply Replays.known (by rw [literal])
      split at hrun
      · rename_i hroute
        rw [if_pos hroute]
        rw [Bool.and_eq_true] at hroute
        exact replays_surveyLiteral hkept hroute.2 hrun refers hown
      · rename_i hroute
        rw [if_neg hroute]
        exact replays_surveyCallees hkept hrun hown hcalled

theorem replays_declareGlobal {strategy : Strategy} {c out : LoweredConstant}
    (hkept : s.tables.defaultTexts.kept.isSome)
    (hrun : declareGlobal strategy c ctx s = (.ok out, t))
    (hown : SameEntry t.tables.known final c.symbol) :
    Replays ctx final (declareGlobal strategy c) out s t := by
  cases hrun
  have again : final.addGlobal c.symbol strategy = final := hown.addGlobal_eq
  let entered := s.withKnown (s.tables.known.addGlobal c.symbol strategy)
  have enters : Replays ctx final (known >>= fun k => setKnown (k.addGlobal c.symbol strategy)) ()
      s entered := .setKnown hkept again
  have writes : Replays ctx final (line c.line) () entered
      (entered.withBody (entered.body.line c.line)) :=
    Replays.writeBody (s := entered) hkept (Text.Writer.uniform_line c.line)
  unfold declareGlobal
  rw [← bind_assoc]
  exact enters.bind (writes.bind (.pure writes.kept c))

section
variable {c : Constant} {name : String} {ty : Ty} {strategy : Strategy}
  (hkept : s.tables.defaultTexts.kept.isSome)
  (hrefers : ∀ init, c.init = some init → ∀ name ∈ init.referred,
    SameReference s.tables.known final name)
  (hown : SameEntry t.tables.known final c.symbol)
include hkept hrefers hown

theorem replays_declaredConstant {declaration : String} {out : LoweredConstant}
    (hrun : declaredConstant c name ty strategy declaration ctx s = (.ok out, t)) :
    Replays ctx final (declaredConstant c name ty strategy declaration) out s t := by
  unfold declaredConstant at hrun ⊢
  cases hinit : c.init with
  | none =>
      rw [hinit] at hrun
      exact replays_declareGlobal hkept hrun hown
  | some init =>
      rw [hinit] at hrun
      obtain ⟨initializer, u, hrendered, hrun⟩ := bind_eq_ok.mp hrun
      have rendered := Replays.rendering
        (Rendering.recalls_initializer (hrefers init hinit) strategy ty name) hkept hrendered
      apply rendered.bind
      cases initializer with
      | inline text => exact replays_declareGlobal rendered.kept hrun hown
      | deferred statements =>
          apply Replays.read
          exact replays_declareGlobal rendered.kept hrun hown

theorem replays_placeholderConstant
    (hrun : placeholderConstant c name ty strategy ctx s = (.ok (), t)) :
    Replays ctx final (placeholderConstant c name ty strategy) () s t := by
  unfold placeholderConstant at hrun ⊢
  cases hinit : c.init with
  | none =>
      rw [hinit] at hrun
      cases hrun
      exact .pure hkept ()
  | some init =>
      rw [hinit] at hrun
      obtain ⟨text, u, hrendered, hrun⟩ := bind_eq_ok.mp hrun
      cases hrun
      have again : final.addDefault c.symbol text = final := hown.addDefault_eq
      have rendered := Replays.rendering
        (Rendering.recalls_placeholder (hrefers init hinit) name strategy ty) hkept hrendered
      exact rendered.bind (.setKnown rendered.kept again)

/-- A constant takes the same route where it is a literal or none, forced or not, as before. -/
theorem replays_constant {out : Option LoweredConstant}
    (hrun : constant c ctx s = (.ok out, t))
    (hliteral : s.tables.known.literals.contains c.symbol = final.literals.contains c.symbol)
    (hforced : isForced ctx s.tables.known c = isForced ctx final c) :
    Replays ctx final (constant c) out s t := by
  unfold constant at hrun ⊢
  obtain ⟨ctx', s₁, hread, hrun⟩ := bind_eq_ok.mp hrun
  cases hread
  obtain ⟨k, s₂, hknown, hrun⟩ := bind_eq_ok.mp hrun
  cases hknown
  apply Replays.read
  apply Replays.known (k := s.tables.known) (by simp only [hliteral, hforced])
  dsimp only at hrun ⊢
  by_cases h : s.tables.known.literals.contains c.symbol
  · rw [if_pos h] at hrun ⊢
    cases hrun
    exact .pure hkept none
  · rw [if_neg h] at hrun ⊢
    generalize (if isForced ctx s.tables.known c then some .deferred
      else (ctx.target.declare (Text.unqualified (ctx.program.symbol c.symbol).name)
        (ctx.program.symbol c.symbol).ty
        (.object (!(ctx.program.symbol c.symbol).isWritable &&
          !isForced ctx s.tables.known c))).strategy) = chosen at hrun ⊢
    cases chosen with
    | none => cases hrun
    | some strategy =>
        dsimp only at hrun ⊢
        by_cases hplaceholder : (ctx.program.symbol c.symbol).isPlaceholder
        · rw [if_pos hplaceholder] at hrun ⊢
          obtain ⟨_, u, hplaced, hdone⟩ := bind_eq_ok.mp hrun
          cases hdone
          have placed := replays_placeholderConstant hkept hrefers hown hplaced
          exact placed.bind (.pure placed.kept none)
        · rw [if_neg hplaceholder] at hrun ⊢
          obtain ⟨lowered, u, hdeclared, hdone⟩ := bind_eq_ok.mp hrun
          cases hdone
          have declared := replays_declaredConstant hkept hrefers hown hdeclared
          exact declared.bind (.pure declared.kept _)

end

section
variable (hp : ctx.program.InDependencyOrder) {before cs : List Constant}
  (hcs : (ctx.program.module ctx.module).constants = before ++ cs)
  (hkept : s.tables.defaultTexts.kept.isSome)
include hp hcs hkept

theorem replays_surveyConstants (hrun : surveyConstants cs ctx s = (.ok (), t))
    (hfinal : ∀ symbol, ctx.program.Settled ctx.module symbol →
      SurveyedAlike t.tables.known final symbol)
    (hcalled : ∀ f, ctx.isHome f → t.tables.known.calledInInit.contains f →
      final.calledInInit.contains f) :
    Replays ctx final (surveyConstants cs) () s t := by
  induction cs generalizing before s with
  | nil =>
      cases hrun
      exact .pure hkept ()
  | cons c rest ih =>
      obtain ⟨_, u, hfirst, hrest⟩ := bind_eq_ok.mp hrun
      have listed : c ∈ (ctx.program.module ctx.module).constants := by simp [hcs]
      have own : SurveyedAlike u.tables.known final c.symbol :=
        (sameEntry_of_surveyConstants hrest (hp.constants.unlisted hcs)).surveyed.trans
          (hfinal _ (hp.constants.settled listed))
      have refers : ∀ init, c.init = some init → ∀ name ∈ init.referred,
          SurveyedAlike s.tables.known final name := by
        intro init hinit name hname
        have mentioned : name ∈ init.mentioned := List.mem_append_left _ hname
        have earlier := sameEntry_of_surveyConstants hrun (hp.ordered hcs hinit name mentioned)
        exact earlier.surveyed.trans
          (hfinal name (hp.mentions (.constant listed hinit) name mentioned))
      have first : Replays ctx final (surveyConstant c) () s u :=
        replays_surveyConstant hkept hfirst refers own fun f hhome hf =>
          hcalled f hhome (((surveyConstants_notes hrest).2 f).mpr (.inl hf))
      have hrestListed : (ctx.program.module ctx.module).constants = (before ++ [c]) ++ rest := by
        rw [hcs, List.append_assoc, List.singleton_append]
      exact first.bind (ih hrestListed first.kept hrest)

variable (hfinal : ∀ symbol, ctx.program.Settled ctx.module symbol →
  SameEntry t.tables.known final symbol)
include hfinal

theorem replays_constantList {out : List LoweredConstant}
    (hrun : constantList cs ctx s = (.ok out, t)) :
    Replays ctx final (constantList cs) out s t := by
  induction cs generalizing before s out with
  | nil =>
      cases hrun
      exact .pure hkept []
  | cons c rest ih =>
      obtain ⟨first, u, others, hfirst, hothers, rfl⟩ := constantList_cons_ok hrun
      have listed : c ∈ (ctx.program.module ctx.module).constants := by simp [hcs]
      have settled := hp.constants.settled listed
      have own : SameEntry u.tables.known final c.symbol :=
        (sameEntry_of_constantList hothers (hp.constants.unlisted hcs)).trans (hfinal _ settled)
      have mentions : ∀ init, c.init = some init → ∀ name ∈ init.mentioned,
          SameEntry s.tables.known final name := fun init hinit name hname =>
        (sameEntry_of_constantList hrun (hp.ordered hcs hinit name hname)).trans
          (hfinal name (hp.mentions (.constant listed hinit) name hname))
      have surveyed : SurveyedAlike s.tables.known final c.symbol :=
        ((surveyed_frame.within_constantList _).done hrun c.symbol).trans
          (hfinal _ settled).surveyed
      have forced : isForced ctx s.tables.known c = isForced ctx final c :=
        isForced_congr surveyed.needsModuleInit fun init hinit name hname _ =>
          (mentions init hinit name (List.mem_append_right _ hname)).strategy
      have replays : Replays ctx final (constant c) first s u := by
        apply replays_constant hkept _ own hfirst _ forced
        · exact fun init hinit name hname =>
            (mentions init hinit name (List.mem_append_left _ hname)).reference
        · rw [Table.contains, Table.contains, surveyed.literal]
      have hrestListed : (ctx.program.module ctx.module).constants = (before ++ [c]) ++ rest := by
        rw [hcs, List.append_assoc, List.singleton_append]
      have later := ih hrestListed replays.kept hothers
      exact replays.bind (later.bind (.pure later.kept _))

theorem replays_constants {out : List LoweredConstant}
    (hrun : constants cs ctx s = (.ok out, t)) : Replays ctx final (constants cs) out s t := by
  obtain ⟨lowered, u, hlist, hdone⟩ := bind_eq_ok.mp hrun
  have known : t.tables.known = u.tables.known := by
    split at hdone <;> cases hdone <;> rfl
  rw [known] at hfinal
  have listed := replays_constantList hp hcs hkept hfinal hlist
  unfold constants
  apply listed.bind
  split at hdone
  · rename_i hempty
    cases hdone
    rw [if_pos hempty]
    exact .pure listed.kept _
  · rename_i hempty
    cases hdone
    rw [if_neg hempty]
    have ends : Replays ctx final blank () u (u.withBody u.body.blank) :=
      .writeBody listed.kept Text.Writer.uniform_blank
    exact ends.bind (.pure ends.kept _)

end
end Emission
end ColorLowering
