import ColorLowering.Proofs.Defaults.Sharing
import ColorLowering.Proofs.Rendering.Property

/-!
# Renderings that are repeated

The first time that a default is filled in for a module its text is kept, and from then on it is
looked up. A rendering that is repeated where all its texts are kept gives the same text as before,
provided that its symbols are still referred to alike, and keeps nothing new.
-/
namespace ColorLowering

namespace DefaultTexts

def Extends (texts later : DefaultTexts) : Prop :=
  ∀ key text, texts.get? key = some text → later.get? key = some text

theorem Extends.refl (texts : DefaultTexts) : texts.Extends texts := fun _ _ h => h

theorem Extends.trans {texts mid later : DefaultTexts} (h : texts.Extends mid)
    (h' : mid.Extends later) : texts.Extends later :=
  fun key text htext => h' key text (h key text htext)

theorem Extends.insert {texts later : DefaultTexts} (h : texts.Extends later)
    {key : ExprId × ModuleId} (hkey : texts.get? key = none) (text : String) :
    texts.Extends (later.insert key text) := by
  intro other found hfound
  have hlater := h other found hfound
  obtain ⟨kept⟩ := later
  cases kept with
  | none => cases hlater
  | some table =>
      have apart : other ≠ key := by
        rintro rfl
        rw [hkey] at hfound
        cases hfound
      exact (if_neg apart).trans hlater

theorem get?_insert_self {texts : DefaultTexts} (hkept : texts.kept.isSome)
    (key : ExprId × ModuleId) (text : String) : (texts.insert key text).get? key = some text := by
  obtain ⟨_ | table⟩ := texts
  · cases hkept
  · exact table.get?_insert_self key text

theorem isSome_kept_insert (texts : DefaultTexts) (key : ExprId × ModuleId) (text : String) :
    (texts.insert key text).kept.isSome = texts.kept.isSome := Option.isSome_map

end DefaultTexts

namespace Rendering

/-- Where texts are kept, a run in `s` only adds to them, and a run in `s'` with all of them at hand
gives the same and adds nothing. -/
def Recalls {α : Type} (s s' : Scope) (r : Rendering α) : Prop :=
  ∀ texts a later, texts.kept.isSome → r s texts = (.ok a, later) →
    (later.kept.isSome ∧ texts.Extends later) ∧
      ∀ full, later.Extends full → r s' full = (.ok a, full)

namespace Recalls

variable {s s' : Scope} {α β : Type}

theorem pure (a : α) : Recalls s s' (pure a : Rendering α) := by
  intro texts _ _ hkept hrun
  cases hrun
  exact ⟨⟨hkept, .refl texts⟩, fun _ _ => rfl⟩

theorem bind {x : Rendering α} {f : α → Rendering β} (hx : Recalls s s' x)
    (hf : ∀ a, Recalls s s' (f a)) : Recalls s s' (x >>= f) := by
  intro texts b later hkept hrun
  obtain ⟨a, mid, hfirst, hnext⟩ := bind_eq_ok.mp hrun
  obtain ⟨⟨hmid, hadded⟩, hagain⟩ := hx texts a mid hkept hfirst
  obtain ⟨⟨hlater, hmore⟩, hnextAgain⟩ := hf a mid b later hmid hnext
  refine ⟨⟨hlater, hadded.trans hmore⟩, fun full hfull => ?_⟩
  exact bind_eq_ok.mpr ⟨a, full, hagain full (hmore.trans hfull), hnextAgain full hfull⟩

theorem property (htarget : s.target = s'.target) :
    RenderingProperty s s' (Recalls s s') where
  akin := .of_eq htarget
  pure := .pure
  throw _ _ _ _ _ hrun := by cases hrun
  bind := .bind
  read {_ f} hf h texts a later hkept hrun := by
    obtain ⟨hadded, hagain⟩ := h texts a later hkept hrun
    refine ⟨hadded, fun full hfull => ?_⟩
    change f s' s' full = (.ok a, full)
    rw [← hf]
    exact hagain full hfull
  notAFunction _ _ _ _ _ hrun := by cases hrun

/-- The text of a default is entered when it is missing and found when it is not. -/
theorem fills (hs : s.SameModule s') {param : String} {ty : Ty} {id : ExprId} {default : Expr}
    (hplain : ∀ symbol, default.plainName? = some symbol →
      s.known.defaults.get? symbol = s'.known.defaults.get? symbol ∧
        s.resolve symbol = s'.resolve symbol) :
    Slot.Fills (Recalls s s') (.optional param ty id default) := by
  intro htext texts a later hkept hrun
  cases hname : default.plainName? with
  | some symbol =>
      obtain ⟨hdefaults, hresolve⟩ := hplain symbol hname
      rw [defaultText_plain hname] at hrun
      obtain ⟨ha, rfl⟩ := Prod.mk.inj hrun
      refine ⟨⟨hkept, .refl texts⟩, fun full _ => ?_⟩
      rw [defaultText_plain hname, ← hdefaults, ← hresolve, ← hs.target, ha]
  | none =>
      simp only [defaultText_complex hname, ← hs.module] at hrun ⊢
      cases hmissing : texts.get? (id, s.module) with
      | some known =>
          rw [hmissing] at hrun
          cases hrun
          refine ⟨⟨hkept, .refl texts⟩, fun full hfull => ?_⟩
          rw [hfull _ _ hmissing]
      | none =>
          rw [hmissing] at hrun
          dsimp only at hrun
          cases hrendered : default.render s texts with
          | mk result mid =>
              rw [hrendered] at hrun
              cases result with
              | error e => cases hrun
              | ok raw =>
                  cases hrun
                  obtain ⟨⟨hmid, hadded⟩, -⟩ := htext hname texts raw mid hkept hrendered
                  refine ⟨⟨?_, hadded.insert hmissing _⟩, fun full hfull => ?_⟩
                  · rw [DefaultTexts.isSome_kept_insert]
                    exact hmid
                  · rw [hfull _ _ (DefaultTexts.get?_insert_self hmid _ _)]

end Recalls

theorem recalls_property (ctx : ModuleContext) (k known : Classification) (portable : Bool) :
    RenderingProperty (ctx.scope k portable) (ctx.scope known portable)
      (Recalls (ctx.scope k portable) (ctx.scope known portable)) :=
  Recalls.property rfl

section
variable {ctx : ModuleContext} {k known : Classification} {portable : Bool} {e : Expr}
  (h : ∀ symbol ∈ e.referred, k.SameReference known symbol)
include h

theorem resolve_of_sameReference : ∀ symbol ∈ e.referred,
    (ctx.scope k portable).resolve symbol = (ctx.scope known portable).resolve symbol :=
  fun symbol hsymbol =>
    Scope.resolve_congr (ctx.sameModule k known portable portable) rfl (h symbol hsymbol)

theorem named_of_sameReference : ∀ symbol ∈ e.named,
    (ctx.scope k portable).resolve symbol = (ctx.scope known portable).resolve symbol :=
  fun symbol hsymbol => resolve_of_sameReference h symbol (e.named_subset_referred hsymbol)

theorem fills_of_sameReference : ∀ slot ∈ e.filled,
    slot.Fills (Recalls (ctx.scope k portable) (ctx.scope known portable)) := by
  intro slot hslot
  cases slot with
  | required => trivial
  | optional param ty id default =>
      apply Recalls.fills (ctx.sameModule k known portable portable)
      intro symbol hplain
      have refers : symbol ∈ e.referred :=
        Expr.referred_of_filled e hslot (Expr.mem_referred_of_plainName? hplain)
      exact ⟨(h symbol refers).defaults, resolve_of_sameReference h symbol refers⟩

theorem recalls_render :
    Recalls (ctx.scope k portable) (ctx.scope known portable) e.render :=
  (recalls_property ctx k known portable).render e (named_of_sameReference h)
    (fills_of_sameReference h) fun _ _ => .inl rfl

theorem recalls_renderAs (ty : Ty) :
    Recalls (ctx.scope k portable) (ctx.scope known portable) (e.renderAs ty) :=
  (recalls_property ctx k known portable).renderAs (named_of_sameReference h)
    (fills_of_sameReference h) (fun _ _ => .inl rfl) ty

theorem recalls_initializer (strategy : Strategy) (ty : Ty) (object : String) :
    Recalls (ctx.scope k portable) (ctx.scope known portable)
      (initializer strategy ty e object) :=
  (recalls_property ctx k known portable).initializer (named_of_sameReference h)
    (fills_of_sameReference h) (fun _ _ => .inl rfl) strategy ty object

theorem recalls_placeholder (name : String) (strategy : Strategy) (ty : Ty) :
    Recalls (ctx.scope k portable) (ctx.scope known portable)
      (placeholder name strategy ty e) :=
  (recalls_property ctx k known portable).placeholder (named_of_sameReference h)
    (fills_of_sameReference h) (fun _ _ => .inl rfl) (fun _ => .inl rfl) name strategy

end

/-- What is built from literals fills in no default, and a literal is its text wherever it is
known. -/
theorem recalls_renderAs_of_isLiteral {ctx : ModuleContext} {k known : Classification}
    {portable : Bool} {e : Expr} (he : e.isLiteral k.literals)
    (h : ∀ symbol ∈ e.referred, k.literals.get? symbol = known.literals.get? symbol) (ty : Ty) :
    Recalls (ctx.scope k portable) (ctx.scope known portable) (e.renderAs ty) := by
  apply (recalls_property ctx k known portable).renderAs _ _ fun _ _ => .inl rfl
  · intro symbol hsymbol
    have refers := e.named_subset_referred hsymbol
    obtain ⟨text, htext⟩ := Table.contains_iff.mp (Expr.literal_of_isLiteral e he symbol refers)
    have same := h symbol refers
    rw [htext] at same
    simp only [Scope.resolve, ModuleContext.scope, htext, ← same]
  · rw [Expr.filled_of_isLiteral e he]
    intro slot hslot
    cases hslot

end Rendering
end ColorLowering
