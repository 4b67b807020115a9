import ColorLowering.Proofs.Agreement.Rendering

/-!
# Rendering with and without known default texts

Where no default text is kept, every omitted argument renders its default anew. Rendering with known
texts follows rendering anew if every known text is what its default would give, and it enters only
such texts. The two may also be run from different scopes of a module that agree on all that the
expression refers to, and so each default gives one text in all of these.
-/
namespace ColorLowering

/-- The default, converted to the type of its parameter and rendered anew. -/
def Scope.anew (s : Scope) (ty : Ty) (default : Expr) : Except Failure String :=
  (default.renderAs ty s .unkept).1

structure Scope.SameModule (s s' : Scope) : Prop where
  program : s.program = s'.program
  target : s.target = s'.target
  module : s.module = s'.module

theorem Scope.SameModule.alike {s s' : Scope} (hs : s.SameModule s') (strict : Prop) :
    s.Alike strict s' :=
  ⟨hs.target, hs.module, fun _ _ => by rw [hs.program]⟩

/-- A slot may be filled from the default texts that `Known` admits, and they may take its text: in
the scope `s` it is known as what the scope `s'` gives anew. -/
def Slot.Honest (Known : DefaultTexts → Prop) (s s' : Scope) : Slot → Prop
  | .required .. => True
  | .optional _ ty id default =>
    match default.plainName? with
    | some symbol => s.known.defaults.get? symbol = s'.known.defaults.get? symbol
    | none => ∀ texts, Known texts →
      (∀ text, texts.get? (id, s.module) = some text → s'.anew ty default = .ok text) ∧
      ∀ text, s'.anew ty default = .ok text → Known (texts.insert (id, s.module) text)

/-- Where no text is kept, a slot is honest if its default is the same placeholder. -/
theorem Slot.honest_unkept {s s' : Scope} {param : String} {ty : Ty} {id : ExprId} {default : Expr}
    (h : ∀ symbol, default.plainName? = some symbol →
      s.known.defaults.get? symbol = s'.known.defaults.get? symbol) :
    Slot.Honest (· = .unkept) s s' (.optional param ty id default) := by
  rw [Slot.Honest]
  cases hplain : default.plainName? with
  | some symbol => exact h symbol hplain
  | none =>
      rintro _ rfl
      exact ⟨fun text h => (by cases h), fun _ _ => rfl⟩

namespace Rendering

/-- Run in `s` with default texts that `Known` admits, the rendering gives what it gives anew in
`s'`, and leaves such texts. -/
def Follows {α : Type} (Known : DefaultTexts → Prop) (s s' : Scope) (r : Rendering α) : Prop :=
  (r s' .unkept).2 = .unkept ∧
    ∀ texts, Known texts → (r s texts).1 = (r s' .unkept).1 ∧ Known (r s texts).2

def BesideNone (Known : DefaultTexts → Prop) (texts texts' : DefaultTexts) : Prop :=
  Known texts ∧ texts' = .unkept

variable {Known : DefaultTexts → Prop} {s s' : Scope} {α : Type}

/-- Following is to agree with a run that keeps no text, which keeps none indeed. -/
theorem Follows.of_agrees {r : Rendering α}
    (hunkept : Agrees True (BesideNone (· = .unkept)) s' s' r)
    (h : Agrees True (BesideNone Known) s s' r) : Follows Known s s' r := by
  obtain ⟨-, -, hunkept⟩ := hunkept .unkept .unkept ⟨rfl, rfl⟩ (.inl trivial)
  refine ⟨hunkept, fun texts htexts => ?_⟩
  obtain ⟨hresult, hknown, -⟩ := h texts .unkept ⟨htexts, rfl⟩ (.inl trivial)
  exact ⟨hresult, hknown⟩

/-- What a default gives anew is its text converted to the type of the parameter. -/
theorem anew_eq (ty : Ty) (default : Expr) : s'.anew ty default =
    (default.render s' .unkept).1.map (s'.target.cast ty default.ty) := by
  unfold Scope.anew Expr.renderAs
  rw [bind_apply]
  cases default.render s' .unkept with
  | mk result texts => cases result <;> rfl

/-- A default agrees with rendering anew where its slot is honest. -/
theorem agrees_of_honest (hs : s.SameModule s') {slot : Slot} (hslot : slot.Honest Known s s')
    (hresolve : ∀ param ty id default symbol, slot = .optional param ty id default →
      default.plainName? = some symbol → s.resolve symbol = s'.resolve symbol) :
    slot.Agrees True (BesideNone Known) s s' := by
  cases slot with
  | required => trivial
  | optional param ty id default =>
      intro htext texts _ ⟨htexts, hunkept⟩ _
      subst hunkept
      cases hplain : default.plainName? with
      | some symbol =>
          simp only [Slot.Honest, hplain] at hslot
          rw [defaultText_plain hplain, defaultText_plain hplain, hslot, hs.target,
            hresolve _ _ _ _ symbol rfl hplain]
          exact ⟨rfl, htexts, rfl⟩
      | none =>
          simp only [Slot.Honest, hplain] at hslot
          rw [defaultText_complex hplain, defaultText_complex hplain]
          obtain ⟨hreads, -⟩ := hslot texts htexts
          obtain ⟨hresult, hlater, hunkept⟩ :=
            htext hplain texts .unkept ⟨htexts, rfl⟩ (.inl trivial)
          rw [anew_eq] at hslot hreads
          cases hanew : default.render s' .unkept with
          | mk result kept =>
              rw [hanew] at hslot hreads hresult hunkept
              dsimp only at hslot hreads hresult hunkept
              subst hunkept
              cases hknown : texts.get? (id, s.module) with
              | some known =>
                  have hgiven := hreads known hknown
                  cases result with
                  | error e => cases hgiven
                  | ok raw =>
                      cases hgiven
                      exact ⟨rfl, htexts, rfl⟩
              | none =>
                  cases hrun : default.render s texts with
                  | mk outcome later =>
                      rw [hrun] at hresult hlater
                      dsimp only at hresult hlater
                      subst hresult
                      cases outcome with
                      | error e => exact ⟨rfl, hlater, rfl⟩
                      | ok raw =>
                          obtain ⟨-, henters⟩ := hslot later hlater
                          rw [← hs.target] at henters
                          dsimp only
                          rw [← hs.target]
                          exact ⟨rfl, henters _ rfl, rfl⟩

section
variable (hs : s.SameModule s') {e : Expr}
  (hreferred : ∀ symbol ∈ e.referred, s.resolve symbol = s'.resolve symbol)
  (hfilled : ∀ slot ∈ e.filled, slot.Honest Known s s')

include hs hreferred hfilled in
theorem agrees_of_filled : ∀ slot ∈ e.filled, slot.Agrees True (BesideNone Known) s s' := by
  intro slot hslot
  apply agrees_of_honest hs (hfilled slot hslot)
  rintro param ty id default symbol rfl hplain
  exact hreferred symbol (Expr.referred_of_filled e hslot (Expr.mem_referred_of_plainName? hplain))

theorem agrees_unkept {e : Expr} :
    ∀ slot ∈ e.filled, slot.Agrees True (BesideNone (· = .unkept)) s' s' := by
  intro slot _
  apply agrees_of_honest ⟨rfl, rfl, rfl⟩
  · cases slot with
    | required => trivial
    | optional => exact Slot.honest_unkept fun _ _ => rfl
  · intro _ _ _ _ _ _ _
    rfl

include hs hreferred hfilled

/-- An expression follows rendering anew where the scopes agree on what it refers to and the slots
that it fills are honest. -/
theorem follows_render : Follows Known s s' e.render :=
  .of_agrees (agrees_render ⟨rfl, rfl, fun _ _ => rfl⟩ e (fun _ _ => rfl) agrees_unkept)
    (agrees_render (hs.alike _) e (fun x hx => hreferred x (e.named_subset_referred hx))
      (agrees_of_filled hs hreferred hfilled))

theorem follows_renderAs (ty : Ty) : Follows Known s s' (e.renderAs ty) :=
  .of_agrees (agrees_renderAs ⟨rfl, rfl, fun _ _ => rfl⟩ (fun _ _ => rfl) agrees_unkept ty)
    (agrees_renderAs (hs.alike _) (fun x hx => hreferred x (e.named_subset_referred hx))
      (agrees_of_filled hs hreferred hfilled) ty)

theorem follows_initializer (strategy : Strategy) (ty : Ty) (object : String) :
    Follows Known s s' (initializer strategy ty e object) :=
  .of_agrees (agrees_initializer ⟨rfl, rfl, fun _ _ => rfl⟩ (fun _ _ => rfl) agrees_unkept
      strategy ty object)
    (agrees_initializer (hs.alike _) (fun x hx => hreferred x (e.named_subset_referred hx))
      (agrees_of_filled hs hreferred hfilled) strategy ty object)

theorem follows_placeholder (name : String) (strategy : Strategy) (ty : Ty) :
    Follows Known s s' (placeholder name strategy ty e) :=
  .of_agrees (agrees_placeholder ⟨rfl, rfl, fun _ _ => rfl⟩ (fun _ _ => rfl) agrees_unkept
      name strategy ty)
    (agrees_placeholder (hs.alike _) (fun x hx => hreferred x (e.named_subset_referred hx))
      (agrees_of_filled hs hreferred hfilled) name strategy ty)

end
end Rendering
end ColorLowering
