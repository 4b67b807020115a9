import ColorLowering.Proofs.Rendering.Property

/-!
# Renderings that agree

A rendering looks up in its scope the symbols that it names, and in the texts of defaults those that
a call omits. Two runs of it in scopes that have the same to say of these symbols and defaults give
the same result and add the same texts.
-/
namespace ColorLowering

/-- What two runs have to give for the one to stand for the other: all, or what succeeds alone. -/
def Compared {α : Type} (strict : Prop) (result : Except Failure α) : Prop :=
  strict ∨ ∃ a, result = .ok a

/-- Both scopes belong to one module and one target. Where failures are compared, they also have the
same names for what is no function. -/
structure Scope.Alike (strict : Prop) (s s' : Scope) : Prop where
  target : s.target = s'.target
  module : s.module = s'.module
  names : strict → ∀ id, (s.program.symbol id).name = (s'.program.symbol id).name

namespace Rendering

section
variable {ty : Ty} {id : ExprId} {default : Expr} {s : Scope}

theorem defaultText_plain {symbol : SymbolId} (hplain : default.plainName? = some symbol)
    (text : Rendering String) (texts : DefaultTexts) :
    defaultText ty id default text s texts =
      (.ok (match s.known.defaults.get? symbol with
        | some known => known
        | none => s.target.cast ty default.ty (s.resolve symbol)), texts) := by
  cases default with
  | name given other =>
      obtain rfl := Option.some.inj hplain
      change (match s.known.defaults.get? other with
        | some known => (Pure.pure known : Rendering String)
        | none => Pure.pure (s.target.cast ty given (s.resolve other))) s texts = _
      cases s.known.defaults.get? other <;> rfl
  | _ => cases hplain

theorem defaultText_complex (hplain : default.plainName? = none) (text : Rendering String)
    (texts : DefaultTexts) :
    defaultText ty id default text s texts =
      match texts.get? (id, s.module) with
      | some known => (.ok known, texts)
      | none =>
        match text s texts with
        | (.ok raw, later) => (.ok (s.target.cast ty default.ty raw),
            later.insert (id, s.module) (s.target.cast ty default.ty raw))
        | (.error e, later) => (.error e, later) := by
  have unfolded : defaultText ty id default text s texts =
      (match texts.get? (id, s.module) with
        | some known => (Pure.pure known : Rendering String)
        | none => text >>= fun raw =>
            (modify fun kept : DefaultTexts =>
              kept.insert (id, s.module) (s.target.cast ty default.ty raw)) >>= fun _ =>
            Pure.pure (s.target.cast ty default.ty raw)) s texts := by
    cases default with
    | name given symbol => cases hplain
    | _ => rfl
  rw [unfolded]
  cases texts.get? (id, s.module) with
  | some known => rfl
  | none =>
      dsimp only
      rw [bind_apply]
      rcases text s texts with ⟨_ | _, later⟩ <;> rfl

end

/-- Run in `s` and in `s'`, from texts of defaults that `R` relates, the rendering gives the same
and leaves such texts. -/
def Agrees {α : Type} (strict : Prop) (R : DefaultTexts → DefaultTexts → Prop) (s s' : Scope)
    (r : Rendering α) : Prop :=
  ∀ texts texts', R texts texts' → Compared strict (r s texts).1 →
    (r s texts).1 = (r s' texts').1 ∧ R (r s texts).2 (r s' texts').2

variable {strict : Prop} {R : DefaultTexts → DefaultTexts → Prop} {s s' : Scope} {α β : Type}

namespace Agrees

theorem const {r : Rendering α} {a b : Except Failure α} (h : ∀ texts, r s texts = (a, texts))
    (h' : ∀ texts, r s' texts = (b, texts)) (heq : Compared strict a → a = b) :
    Agrees strict R s s' r := by
  intro texts texts' htexts hcompared
  rw [h] at hcompared ⊢
  rw [h']
  exact ⟨heq hcompared, htexts⟩

theorem pure (a : α) : Agrees strict R s s' (pure a : Rendering α) :=
  const (fun _ => rfl) (fun _ => rfl) fun _ => rfl

theorem throw (e : Failure) : Agrees strict R s s' (throw e : Rendering α) :=
  const (fun _ => rfl) (fun _ => rfl) fun _ => rfl

theorem bind {x : Rendering α} {f : α → Rendering β} (hx : Agrees strict R s s' x)
    (hf : ∀ a, Agrees strict R s s' (f a)) : Agrees strict R s s' (x >>= f) := by
  intro texts texts' htexts hcompared
  rw [bind_apply] at hcompared
  cases hrun : x s texts with
  | mk result later =>
      rw [hrun] at hcompared
      have hfirst : Compared strict result := by
        cases result with
        | ok a => exact .inr ⟨a, rfl⟩
        | error e =>
            rcases hcompared with hstrict | ⟨a, ha⟩
            · exact .inl hstrict
            · cases ha
      have hsame := hx texts texts' htexts
      rw [hrun] at hsame
      obtain ⟨hresult, hlater⟩ := hsame hfirst
      cases hrun' : x s' texts' with
      | mk result' later' =>
          rw [hrun'] at hresult hlater
          dsimp only at hresult hlater
          subst hresult
          rw [bind_apply, bind_apply, hrun, hrun']
          cases result with
          | error e => exact ⟨rfl, hlater⟩
          | ok a => exact hf a later later' hlater hcompared

theorem read {f : Scope → Rendering α} (hf : f s = f s') (h : Agrees strict R s s' (f s')) :
    Agrees strict R s s' (MonadReader.read >>= f) := by
  intro texts texts' htexts hcompared
  change Compared strict (f s s texts).1 at hcompared
  change (f s s texts).1 = (f s' s' texts').1 ∧ R (f s s texts).2 (f s' s' texts').2
  rw [hf] at hcompared ⊢
  exact h texts texts' htexts hcompared

theorem notAFunction (hs : s.Alike strict s') (symbol : SymbolId) : Agrees strict R s s'
    (MonadReader.read >>= fun scope : Scope =>
      (MonadExcept.throw (Failure.notAFunction (scope.program.symbol symbol).name) :
        Rendering α)) := by
  refine const (a := .error (.notAFunction (s.program.symbol symbol).name))
    (b := .error (.notAFunction (s'.program.symbol symbol).name))
    (fun _ => rfl) (fun _ => rfl) ?_
  rintro (hstrict | ⟨a, ha⟩)
  · rw [hs.names hstrict]
  · cases ha

theorem property (hs : s.Alike strict s') : RenderingProperty s s' (Agrees strict R s s') where
  akin := .of_eq hs.target
  pure := .pure
  throw := .throw
  bind := .bind
  read hf h := .read hf (hf ▸ h)
  notAFunction := .notAFunction hs

end Agrees
end Rendering

/-- Filling in the slot gives the same in both scopes, where rendering its default does. A default
that is a plain name is looked up and not rendered. -/
def Slot.Agrees (strict : Prop) (R : DefaultTexts → DefaultTexts → Prop) (s s' : Scope) :
    Slot → Prop
  | .required .. => True
  | .optional _ ty id default =>
    (default.plainName? = none → Rendering.Agrees strict R s s' default.render) →
      Rendering.Agrees strict R s s' (Rendering.defaultText ty id default default.render)

/-- A default is filled in alike where both scopes know it as the same placeholder, or find the same
text kept for it and enter the same one. -/
theorem Slot.agrees_of_same {strict : Prop} {R : DefaultTexts → DefaultTexts → Prop}
    {s s' : Scope} (hs : s.Alike strict s') {param : String} {ty : Ty} {id : ExprId}
    {default : Expr}
    (hplain : ∀ symbol, default.plainName? = some symbol →
      s.known.defaults.get? symbol = s'.known.defaults.get? symbol ∧
      (s.known.defaults.get? symbol = none → s.resolve symbol = s'.resolve symbol))
    (hreads : ∀ texts texts', R texts texts' →
      texts.get? (id, s.module) = texts'.get? (id, s.module))
    (henters : ∀ texts texts' text, R texts texts' →
      R (texts.insert (id, s.module) text) (texts'.insert (id, s.module) text)) :
    Slot.Agrees strict R s s' (.optional param ty id default) := by
  intro htext texts texts' htexts hcompared
  cases hname : default.plainName? with
  | some symbol =>
      obtain ⟨hdefaults, hresolve⟩ := hplain symbol hname
      rw [Rendering.defaultText_plain hname, Rendering.defaultText_plain hname, ← hdefaults,
        ← hs.target]
      refine ⟨?_, htexts⟩
      cases hknown : s.known.defaults.get? symbol with
      | some known => rfl
      | none => rw [hresolve hknown]
  | none =>
      rw [Rendering.defaultText_complex hname] at hcompared ⊢
      rw [Rendering.defaultText_complex hname, ← hs.module, ← hs.target, ← hreads _ _ htexts]
      cases hkept : texts.get? (id, s.module) with
      | some known => exact ⟨rfl, htexts⟩
      | none =>
          rw [hkept] at hcompared
          have hsame := htext hname texts texts' htexts
          cases hrun : default.render s texts with
          | mk result later =>
              rw [hrun] at hsame hcompared
              have hfirst : Compared strict result := by
                cases result with
                | ok raw => exact .inr ⟨raw, rfl⟩
                | error e => exact hcompared.imp_right fun ⟨_, h⟩ => by cases h
              obtain ⟨hresult, hlater⟩ := hsame hfirst
              cases hrun' : default.render s' texts' with
              | mk result' later' =>
                  rw [hrun'] at hresult hlater
                  dsimp only at hresult hlater
                  subst hresult
                  cases result with
                  | error e => exact ⟨rfl, hlater⟩
                  | ok raw => exact ⟨rfl, henters _ _ _ hlater⟩

namespace Rendering

section
variable {strict : Prop} {R : DefaultTexts → DefaultTexts → Prop} {s s' : Scope}
  (hs : s.Alike strict s')
include hs

/-- An expression is rendered alike in two scopes that have the same to say of what it names and of
the defaults that it fills in. -/
theorem agrees_render (e : Expr) (hnamed : ∀ symbol ∈ e.named, s.resolve symbol = s'.resolve symbol)
    (hfilled : ∀ slot ∈ e.filled, slot.Agrees strict R s s') : Agrees strict R s s' e.render :=
  (Agrees.property hs).render e hnamed hfilled fun _ _ => .inl hs.target

variable {e : Expr} (hnamed : ∀ symbol ∈ e.named, s.resolve symbol = s'.resolve symbol)
  (hfilled : ∀ slot ∈ e.filled, slot.Agrees strict R s s')
include hnamed hfilled

theorem agrees_renderAs (ty : Ty) : Agrees strict R s s' (e.renderAs ty) :=
  (Agrees.property hs).renderAs hnamed hfilled (fun _ _ => .inl hs.target) ty

theorem agrees_initializer (strategy : Strategy) (ty : Ty) (object : String) :
    Agrees strict R s s' (initializer strategy ty e object) :=
  (Agrees.property hs).initializer hnamed hfilled (fun _ _ => .inl hs.target) strategy ty object

theorem agrees_placeholder (name : String) (strategy : Strategy) (ty : Ty) :
    Agrees strict R s s' (placeholder name strategy ty e) :=
  (Agrees.property hs).placeholder hnamed hfilled (fun _ _ => .inl hs.target)
    (fun _ => .inl hs.target) name strategy

end
end Rendering
end ColorLowering
