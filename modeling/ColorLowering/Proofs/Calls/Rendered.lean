import ColorLowering.Initializer
import ColorLowering.Proofs.Agreement.Rendering
import ColorLowering.Proofs.Calls.Lists
import ColorLowering.Proofs.Defaults.Transparent

/-!
# Rendered texts are solid

The text of an expression is solid where nothing that is spelled in it holds a bracket, a comma or a
quote. The induction is over the expression and, where a call omits arguments, over their defaults;
it carries that the texts known of literals, placeholders and defaults are solid, and leaves it so.
-/
namespace ColorLowering

open Text

mutual
/-- No member that is taken and no type that is spelled has a bracket, a comma or a quote in its
name. -/
def Expr.Plain : Expr → Prop
  | .literal .. => True
  | .name .. => True
  | .binary _ _ _ left right => left.Plain ∧ right.Plain
  | .unary _ _ operand => operand.Plain
  | .index _ array position => array.Plain ∧ position.Plain
  | .member _ object field => object.Plain ∧ Text.Plain field
  | .call _ (.function _ slots) args => Expr.AllPlain args ∧ Expr.SlotsPlain slots
  | .call _ (.variable _) _ => True
  | .call _ .computed _ => True
  | .aggregate ty leaves => ty.Plain ∧ Expr.AllPlain leaves
  | .size .. => True
  | .unresolved _ => True

def Expr.AllPlain : List Expr → Prop
  | [] => True
  | e :: es => e.Plain ∧ Expr.AllPlain es

def Expr.SlotsPlain : List Slot → Prop
  | [] => True
  | .required .. :: rest => Expr.SlotsPlain rest
  | .optional _ _ _ default :: rest => default.Plain ∧ Expr.SlotsPlain rest
end

structure Classification.Solid (k : Classification) : Prop where
  literals : ∀ symbol text, k.literals.get? symbol = some text → Text.Solid text
  defaults : ∀ symbol text, k.defaults.get? symbol = some text → Text.Solid text

def DefaultTexts.Solid (texts : DefaultTexts) : Prop :=
  ∀ key text, texts.get? key = some text → Text.Solid text

/-- What is known in the scope is solid, and nothing that is spelled holds a mark. -/
structure Scope.Solid (s : Scope) : Prop where
  vectors : Text.Plain s.target.vectorNamespace
  names : s.program.PlainNames
  known : s.known.Solid

theorem solid_unaryText (op : UnaryOp) {operand : String} (h : Solid operand) :
    Solid (unaryText op.token operand) := by
  have token : Text.Plain op.token := by cases op <;> decide
  intro outer
  unfold unaryText
  split
  · have same : op.token ++ "(" ++ operand ++ ")" = op.token ++ ("(" ++ operand ++ ")") := by
      simp [String.append_assoc]
    rw [same]
    exact (token.solid outer).append (h _).between
  · exact (token.solid outer).append (h outer)

theorem solid_binary (op : BinaryOp) {left right : String} (hl : Solid left) (hr : Solid right) :
    Solid ("(" ++ left ++ " " ++ op.token ++ " " ++ right ++ ")") := by
  have token : Text.Plain (" " ++ op.token ++ " ") := by cases op <;> decide
  intro outer
  have inner := ((hl (')' :: outer)).append (token.solid _)).append (hr _)
  have same : "(" ++ left ++ " " ++ op.token ++ " " ++ right ++ ")" =
      "(" ++ (left ++ (" " ++ op.token ++ " ") ++ right) ++ ")" := by
    simp [String.append_assoc]
  rw [same]
  exact inner.between

namespace Rendering

variable {α β : Type} {s : Scope} {P : α → Prop} {Q : β → Prop}

def Ensures (P : α → Prop) (s : Scope) (r : Rendering α) : Prop :=
  ∀ texts, texts.Solid → (r s texts).2.Solid ∧ ∀ a, (r s texts).1 = .ok a → P a

namespace Ensures

theorem pure {a : α} (h : P a) : Ensures P s (pure a) := by
  refine fun texts htexts => ⟨htexts, fun a' ha => ?_⟩
  cases ha
  exact h

theorem failed {r : Rendering α} {e : Failure} (h : ∀ texts, r s texts = (.error e, texts)) :
    Ensures P s r := by
  intro texts htexts
  rw [h texts]
  exact ⟨htexts, fun _ ha => by cases ha⟩

theorem bind {x : Rendering α} {f : α → Rendering β} (hx : Ensures P s x)
    (hf : ∀ a, P a → Ensures Q s (f a)) : Ensures Q s (x >>= f) := by
  intro texts htexts
  obtain ⟨hlater, hends⟩ := hx texts htexts
  rw [bind_apply]
  cases hrun : x s texts with
  | mk result later =>
      rw [hrun] at hlater hends
      cases result with
      | error e => exact ⟨hlater, fun _ h => by cases h⟩
      | ok a => exact hf a (hends a rfl) later hlater

theorem read {f : Scope → Rendering α} (h : Ensures P s (f s)) :
    Ensures P s (MonadReader.read >>= f) := h

theorem cast {text : String} (h : Solid text) (wanted given : Ty) :
    Ensures Solid s (Rendering.cast wanted given text) :=
  read (pure (s.target.solid_cast wanted given h))

theorem layOut {layout : Leaves α} (hlayout : layout.Takes P) {texts : List String}
    (h : ∀ t ∈ texts, Solid t) : Ensures P s (Rendering.layOut layout texts) := by
  unfold Rendering.layOut
  split
  · rename_i result rest hrun
    exact pure (hlayout texts h result rest hrun).1
  · exact failed fun _ => rfl

theorem laidOut (layout : Leaves α) (texts : List String) :
    Ensures (fun _ => True) s (Rendering.layOut layout texts) := by
  unfold Rendering.layOut
  split
  · exact pure trivial
  · exact failed fun _ => rfl

end Ensures

section
variable (hs : s.Solid)
include hs

theorem solid_resolve (symbol : SymbolId) : Solid (s.resolve symbol) := by
  cases hliteral : s.known.literals.get? symbol with
  | none => exact (Scope.plain_resolve hs.names hliteral).solid
  | some text =>
      rw [Scope.resolve, hliteral]
      exact hs.known.literals symbol text hliteral

theorem ensures_resolved (symbol : SymbolId) : Ensures Solid s (resolved symbol) :=
  .read (.pure (solid_resolve hs symbol))

theorem ensures_defaultText {default : Expr} (hrender : Ensures Solid s default.render) (ty : Ty)
    (id : ExprId) : Ensures Solid s (defaultText ty id default default.render) := by
  intro texts htexts
  cases hplain : default.plainName? with
  | some symbol =>
      rw [defaultText_plain hplain]
      refine ⟨htexts, fun text h => ?_⟩
      cases h
      cases hknown : s.known.defaults.get? symbol with
      | some known => exact hs.known.defaults symbol known hknown
      | none => exact s.target.solid_cast _ _ (solid_resolve hs symbol)
  | none =>
      rw [defaultText_complex hplain]
      cases hkept : texts.get? (id, s.module) with
      | some known =>
          refine ⟨htexts, fun text h => ?_⟩
          cases h
          exact htexts _ known hkept
      | none =>
          obtain ⟨hlater, hends⟩ := hrender texts htexts
          cases hrun : default.render s texts with
          | mk result later =>
              rw [hrun] at hlater hends
              cases result with
              | error e => exact ⟨hlater, fun _ h => by cases h⟩
              | ok raw =>
                  have fresh := s.target.solid_cast ty default.ty (hends raw rfl)
                  refine ⟨fun key text htext => ?_, fun text h => ?_⟩
                  · obtain ⟨-, rfl⟩ | hbefore := DefaultTexts.get?_insert htext
                    · exact fresh
                    · exact hlater key text hbefore
                  · cases h
                    exact fresh

theorem ensures_temporary {ty : Ty} (hty : ty.Plain) :
    Ensures (fun found => Text.Plain found.1) s (temporary ty) := by
  unfold temporary
  apply Ensures.read
  dsimp only
  split
  · rename_i hnative
    exact .pure (s.target.plain_nativeSpelling hs.vectors hnative)
  · split
    · exact .pure (s.target.plain_spell hs.vectors ty hty)
    · exact .failed fun _ => rfl

theorem ensures_layOutTemporary {ty : Ty} {spelling : String} (hspelling : Text.Plain spelling)
    (isNative : Bool) {texts : List String} (h : ∀ t ∈ texts, Solid t) :
    Ensures Solid s (layOutTemporary ty spelling isNative texts) := by
  unfold layOutTemporary
  split
  · apply (Ensures.layOut (Leaves.Takes.flat ty) h).bind
    intro args hargs
    refine .pure fun outer => ?_
    exact (hspelling.solid outer).append (closed_commaSeparated (by simp) hargs).parenthesized
  · apply Ensures.read
    apply (Ensures.layOut (s.target.takes_braces hs.vectors ty) h).bind
    intro list hlist
    exact .pure fun outer => (hspelling.solid outer).append (hlist outer)

omit hs in
theorem ensures_arraySizeText (ty : Ty) : Ensures Solid s (arraySizeText ty) := by
  unfold arraySizeText
  split
  · rename_i size
    exact .pure (plain_toString (Int.ofNat (size + 1))).solid
  · exact .failed fun _ => rfl

end

mutual
theorem ensures_render (hs : s.Solid) : (e : Expr) → e.Plain → Ensures Solid s e.render
  | .literal _ value, _ => by
      rw [Expr.render]
      exact .pure value.solid_text
  | .name _ symbol, _ => by
      rw [Expr.render]
      exact ensures_resolved hs symbol
  | .binary _ op operandTy left right, h => by
      rw [Expr.Plain] at h
      rw [Expr.render]
      apply (ensures_render hs left h.1).bind
      intro _ hleft
      apply (Ensures.cast hleft _ _).bind
      intro l hl
      apply (ensures_render hs right h.2).bind
      intro _ hright
      apply (Ensures.cast hright _ _).bind
      intro r hr
      exact .pure (solid_binary op hl hr)
  | .unary _ op operand, h => by
      rw [Expr.Plain] at h
      rw [Expr.render]
      apply (ensures_render hs operand h).bind
      intro _ hoperand
      apply (Ensures.cast hoperand _ _).bind
      intro text htext
      exact .pure (solid_unaryText op htext)
  | .index _ array position, h => by
      rw [Expr.Plain] at h
      rw [Expr.render]
      apply (ensures_render hs array h.1).bind
      intro a ha
      apply (ensures_render hs position h.2).bind
      intro _ hposition
      apply (Ensures.cast hposition _ _).bind
      intro i hi
      have same : a ++ "[" ++ i ++ "]" = a ++ ("[" ++ i ++ "]") := by simp [String.append_assoc]
      rw [same]
      exact .pure fun outer => (ha outer).append (hi _).subscript
  | .member _ object field, h => by
      rw [Expr.Plain] at h
      rw [Expr.render]
      apply (ensures_render hs object h.1).bind
      intro text htext
      have point : Text.Plain "." := by decide
      exact .pure fun outer => ((htext outer).append (point.solid _)).append (h.2.solid _)
  | .call _ (.function symbol slots) args, h => by
      rw [Expr.Plain] at h
      rw [Expr.render]
      apply (ensures_resolved hs symbol).bind
      intro function hfunction
      dsimp only
      split
      · exact .failed fun _ => rfl
      · apply (ensures_renderAll hs (slots.map Slot.ty) args h.1).bind
        intro supplied hsupplied
        apply (ensures_renderDefaults hs function args.length slots h.2).bind
        intro omitted homitted
        exact .pure (solid_callText hfunction
          (List.forall_mem_append.mpr ⟨hsupplied, homitted⟩))
  | .call _ (.variable symbol) _, _ => by
      rw [Expr.render]
      exact .failed fun _ => rfl
  | .call _ .computed _, _ => by
      rw [Expr.render]
      exact .failed fun _ => rfl
  | .aggregate ty leaves, h => by
      rw [Expr.Plain] at h
      rw [Expr.render]
      apply (ensures_temporary hs h.1).bind
      rintro ⟨spelling, isNative⟩ hspelling
      dsimp only
      obtain ⟨-, hpass⟩ | ⟨e, hstop⟩ := checkLeaves_cases ty spelling leaves.length
      · rw [hpass, pure_bind]
        apply (ensures_renderAll hs ty.leaves leaves h.2).bind
        intro texts htexts
        exact ensures_layOutTemporary hs hspelling isNative htexts
      · rw [hstop]
        exact .failed fun _ => rfl
  | .size _ array, _ => by
      rw [Expr.render]
      exact ensures_arraySizeText array.ty
  | .unresolved _, _ => by
      rw [Expr.render]
      exact .failed fun _ => rfl

theorem ensures_renderAll (hs : s.Solid) : (tys : List Ty) → (es : List Expr) →
    Expr.AllPlain es → Ensures (∀ t ∈ ·, Solid t) s (Expr.renderAll tys es)
  | ty :: tys, e :: es, h => by
      rw [Expr.AllPlain] at h
      rw [Expr.renderAll]
      apply (ensures_render hs e h.1).bind
      intro _ htext
      apply (Ensures.cast htext _ _).bind
      intro first hfirst
      apply (ensures_renderAll hs tys es h.2).bind
      intro others hothers
      exact .pure (List.forall_mem_cons.mpr ⟨hfirst, hothers⟩)
  | [], es, _ => by
      rw [Expr.renderAll]
      · exact .pure (by simp)
      · simp
  | ty :: tys, [], _ => by
      rw [Expr.renderAll]
      · exact .pure (by simp)
      · simp

theorem ensures_renderDefaults (hs : s.Solid) (function : String) : (supplied : Nat) →
    (slots : List Slot) → Expr.SlotsPlain slots →
    Ensures (∀ t ∈ ·, Solid t) s (Expr.renderDefaults function supplied slots)
  | _, [], _ => by
      rw [Expr.renderDefaults]
      exact .pure (by simp)
  | supplied + 1, slot :: rest, h => by
      rw [Expr.renderDefaults]
      apply ensures_renderDefaults hs function supplied rest
      cases slot with
      | required => exact h
      | optional => exact h.2
  | 0, .required param _ :: _, _ => by
      rw [Expr.renderDefaults]
      exact .failed fun _ => rfl
  | 0, .optional param ty id default :: rest, h => by
      rw [Expr.SlotsPlain] at h
      rw [Expr.renderDefaults]
      apply (ensures_defaultText hs (ensures_render hs default h.1) ty id).bind
      intro first hfirst
      apply (ensures_renderDefaults hs function 0 rest h.2).bind
      intro others hothers
      exact .pure (List.forall_mem_cons.mpr ⟨hfirst, hothers⟩)
end

section
variable (hs : s.Solid) {e : Expr} (h : e.Plain)
include hs h

theorem ensures_renderAs (ty : Ty) : Ensures Solid s (e.renderAs ty) := by
  unfold Expr.renderAs
  apply (ensures_render hs e h).bind
  intro text htext
  exact .cast htext ty e.ty

theorem ensures_initializer (strategy : Strategy) (ty : Ty) (object : String) :
    Ensures (fun _ => True) s (initializer strategy ty e object) := by
  have value := ensures_renderAs hs h ty
  have leaves {α : Type} (ty' : Ty) (leaves : List Expr) (he : e = .aggregate ty' leaves)
      (layout : Target → Leaves α) :
      Ensures (fun _ => True) s (aggregate ty object leaves layout) := by
    subst he
    rw [Expr.Plain] at h
    unfold aggregate Expr.leafTexts
    obtain ⟨-, hpass⟩ | ⟨e, hstop⟩ := checkLeaves_cases ty object leaves.length
    · rw [hpass, pure_bind]
      apply (ensures_renderAll hs ty.leaves leaves h.2).bind
      intro texts htexts
      exact .read (.laidOut _ texts)
    · rw [hstop]
      exact .failed fun _ => rfl
  unfold initializer
  apply Ensures.read
  dsimp only
  split
  · exact (leaves _ _ rfl _).bind fun _ _ => .pure trivial
  · split
    · exact (leaves _ _ rfl _).bind fun _ _ => .pure trivial
    · exact (leaves _ _ rfl _).bind fun _ _ => .pure trivial
  · exact (leaves _ _ rfl _).bind fun _ _ => .pure trivial
  · exact value.bind fun _ _ => .pure trivial
  · exact value.bind fun _ _ => .pure trivial
  · exact value.bind fun _ _ => .pure trivial

theorem ensures_placeholder (name : String) (strategy : Strategy) {ty : Ty} (hty : ty.Plain) :
    Ensures Solid s (placeholder name strategy ty e) := by
  have value := ensures_renderAs hs h ty
  unfold placeholder
  split
  · exact ensures_resolved hs _
  · exact .failed fun _ => rfl
  · rw [Expr.Plain] at h
    refine ensures_render hs _ ?_
    rw [Expr.Plain]
    exact ⟨hty, h.2⟩
  · apply Ensures.read
    apply value.bind
    intro text htext
    have head := s.target.plain_spell hs.vectors ty hty
    exact .pure fun outer => (head.solid outer).append (htext _).parenthesized
  · exact value

end
end Rendering
end ColorLowering
