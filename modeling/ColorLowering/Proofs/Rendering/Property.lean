import ColorLowering.Initializer
import ColorLowering.Proofs.Agreement.References
import ColorLowering.Proofs.Dialect.Targets

/-!
# What holds of every rendering

Renderings are put together from a few steps, as emitters are. A property that these steps have is
one of the text of every expression, provided that it holds of the symbols that the expression names,
of the defaults that its calls fill in and of the aggregates that are written as values. A property
may look at a rendering in two scopes at once, whose targets differ in their dialect at most.
-/
namespace ColorLowering

mutual
/-- The types of the aggregates that are written as values when the expression is rendered, those
within defaults included. -/
def Expr.temporaries : Expr → List Ty
  | .literal .. => []
  | .name .. => []
  | .binary _ _ _ left right => left.temporaries ++ right.temporaries
  | .unary _ _ operand => operand.temporaries
  | .index _ array position => array.temporaries ++ position.temporaries
  | .member _ object _ => object.temporaries
  | .call _ (.function _ slots) args =>
    Expr.temporariesAll args ++ Expr.temporariesAfter args.length slots
  | .call _ (.variable _) _ => []
  | .call _ .computed _ => []
  | .aggregate ty leaves => ty :: Expr.temporariesAll leaves
  | .size .. => []
  | .unresolved _ => []

def Expr.temporariesAll : List Expr → List Ty
  | [] => []
  | e :: es => e.temporaries ++ Expr.temporariesAll es

def Expr.temporariesAfter : (supplied : Nat) → List Slot → List Ty
  | _, [] => []
  | supplied + 1, _ :: rest => Expr.temporariesAfter supplied rest
  | 0, .required .. :: _ => []
  | 0, .optional _ _ _ default :: rest => default.temporaries ++ Expr.temporariesAfter 0 rest
end

/-- The types of the aggregates that are written as values in an initializer. One that is the
initializer itself is laid out along the declared type instead. -/
def Expr.initialTemporaries : Expr → List Ty
  | .aggregate _ leaves => Expr.temporariesAll leaves
  | e => e.temporaries

theorem Expr.initialTemporaries_eq {e : Expr} (h : e.isAggregate = false) :
    e.initialTemporaries = e.temporaries := by
  cases e with
  | aggregate ty leaves => cases h
  | _ => rfl

def Scope.SameTemporary (s s' : Scope) (ty : Ty) : Prop :=
  s.target = s'.target ∨ s.target.isNative ty

/-- The property holds of all that the texts of expressions are put together from. -/
structure RenderingProperty (s s' : Scope) (P : {α : Type} → Rendering α → Prop) : Prop where
  akin : s.target.Akin s'.target
  pure : ∀ {α : Type} (a : α), P (pure a : Rendering α)
  throw : ∀ {α : Type} (e : Failure), P (throw e : Rendering α)
  bind : ∀ {α β : Type} {x : Rendering α} {f : α → Rendering β}, P x → (∀ a, P (f a)) → P (x >>= f)
  read : ∀ {α : Type} {f : Scope → Rendering α}, f s = f s' → P (f s) → P (MonadReader.read >>= f)
  /-- A call of what is no function fails under the name of the symbol. -/
  notAFunction : ∀ {α : Type} (symbol : SymbolId), P (MonadReader.read >>= fun scope : Scope =>
    (MonadExcept.throw (Failure.notAFunction (scope.program.symbol symbol).name) : Rendering α))

/-- The property holds of filling in the slot, where it holds of rendering its default. A default
that is a plain name is looked up and not rendered. -/
def Slot.Fills (P : {α : Type} → Rendering α → Prop) : Slot → Prop
  | .required .. => True
  | .optional _ ty id default =>
    (default.plainName? = none → P default.render) →
      P (Rendering.defaultText ty id default default.render)

namespace RenderingProperty

variable {s s' : Scope} {P : {α : Type} → Rendering α → Prop}

section
variable (H : RenderingProperty s s' P)
include H

theorem cast (wanted given : Ty) (text : String) : P (Rendering.cast wanted given text) :=
  H.read (by rw [H.akin.cast]) (H.pure _)

theorem resolved {symbol : SymbolId} (h : s.resolve symbol = s'.resolve symbol) :
    P (Rendering.resolved symbol) :=
  H.read (by rw [h]) (H.pure _)

theorem checkLeaves (ty : Ty) (object : String) (found : Nat) :
    P (Rendering.checkLeaves ty object found) := by
  obtain ⟨-, hpass⟩ | ⟨e, hstop⟩ :=
    Rendering.checkLeaves_cases ty object found
  · rw [hpass]
    exact H.pure ()
  · rw [hstop]
    exact H.throw e

theorem layOut {α : Type} (layout : Leaves α) (texts : List String) :
    P (Rendering.layOut layout texts) := by
  unfold Rendering.layOut
  split
  · exact H.pure _
  · exact H.throw _

theorem temporary {ty : Ty} (hty : s.SameTemporary s' ty) : P (Rendering.temporary ty) := by
  unfold Rendering.temporary
  apply H.read
  · dsimp only
    rw [← H.akin.nativeSpelling?]
    obtain htarget | hnative := hty
    · rw [htarget]
    · obtain ⟨spelling, hspelling⟩ := Option.isSome_iff_exists.mp hnative
      rw [hspelling]
  · dsimp only
    split
    · exact H.pure _
    · split
      · exact H.pure _
      · exact H.throw _

theorem layOutTemporary (ty : Ty) (spelling : String) (isNative : Bool) (texts : List String) :
    P (Rendering.layOutTemporary ty spelling isNative texts) := by
  unfold Rendering.layOutTemporary
  split
  · apply H.bind (H.layOut _ _)
    exact fun _ => H.pure _
  · apply H.read (by rw [H.akin.braces])
    apply H.bind (H.layOut _ _)
    exact fun _ => H.pure _

theorem arraySizeText (ty : Ty) : P (ColorLowering.arraySizeText ty) := by
  unfold ColorLowering.arraySizeText
  split
  · exact H.pure _
  · exact H.throw _

end

mutual
theorem render (H : RenderingProperty s s' P) : (e : Expr) →
    (∀ symbol ∈ e.named, s.resolve symbol = s'.resolve symbol) →
    (∀ slot ∈ e.filled, slot.Fills P) →
    (∀ ty ∈ e.temporaries, s.SameTemporary s' ty) → P e.render
  | .literal _ value, _, _, _ => by
      rw [Expr.render]
      exact H.pure _
  | .name _ symbol, hnamed, _, _ => by
      rw [Expr.render]
      exact H.resolved (hnamed symbol (List.mem_singleton.mpr rfl))
  | .binary _ op operandTy left right, hnamed, hfilled, htemporaries => by
      simp only [Expr.named, Expr.filled, Expr.temporaries, List.forall_mem_append]
        at hnamed hfilled htemporaries
      rw [Expr.render]
      apply H.bind (render H left hnamed.1 hfilled.1 htemporaries.1)
      intro l
      apply H.bind (H.cast _ _ _)
      intro _
      apply H.bind (render H right hnamed.2 hfilled.2 htemporaries.2)
      intro r
      exact H.bind (H.cast _ _ _) fun _ => H.pure _
  | .unary _ op operand, hnamed, hfilled, htemporaries => by
      rw [Expr.render]
      apply H.bind (render H operand hnamed hfilled htemporaries)
      intro text
      exact H.bind (H.cast _ _ _) fun _ => H.pure _
  | .index _ array position, hnamed, hfilled, htemporaries => by
      simp only [Expr.named, Expr.filled, Expr.temporaries, List.forall_mem_append]
        at hnamed hfilled htemporaries
      rw [Expr.render]
      apply H.bind (render H array hnamed.1 hfilled.1 htemporaries.1)
      intro a
      apply H.bind (render H position hnamed.2 hfilled.2 htemporaries.2)
      intro i
      exact H.bind (H.cast _ _ _) fun _ => H.pure _
  | .member _ object _, hnamed, hfilled, htemporaries => by
      rw [Expr.render]
      exact H.bind (render H object hnamed hfilled htemporaries) fun _ => H.pure _
  | .call _ (.function symbol slots) args, hnamed, hfilled, htemporaries => by
      simp only [Expr.named, Expr.filled, Expr.temporaries, List.forall_mem_cons,
        List.forall_mem_append] at hnamed hfilled htemporaries
      rw [Expr.render]
      apply H.bind (H.resolved hnamed.1)
      intro function
      have supplied := renderAll H (slots.map Slot.ty) args hnamed.2.1 hfilled.1 htemporaries.1
      have omitted := renderDefaults H function args.length slots hnamed.2.2 hfilled.2
        htemporaries.2
      have called : P (do
          let supplied ← Expr.renderAll (slots.map Slot.ty) args
          let omitted ← Expr.renderDefaults function args.length slots
          return callText function (supplied ++ omitted)) :=
        H.bind supplied fun _ => H.bind omitted fun _ => H.pure _
      dsimp only
      split
      · exact H.bind (H.throw _) fun _ => called
      · exact called
  | .call _ (.variable symbol) _, _, _, _ => by
      rw [Expr.render]
      exact H.notAFunction symbol
  | .call _ .computed _, _, _, _ => by
      rw [Expr.render]
      exact H.throw _
  | .aggregate ty leaves, hnamed, hfilled, htemporaries => by
      simp only [Expr.temporaries, List.forall_mem_cons] at htemporaries
      rw [Expr.render]
      apply H.bind (H.temporary htemporaries.1)
      intro (spelling, isNative)
      apply H.bind (H.checkLeaves ty spelling _)
      intro _
      apply H.bind (renderAll H ty.leaves leaves hnamed hfilled htemporaries.2)
      intro texts
      exact H.layOutTemporary ty spelling isNative texts
  | .size _ array, _, _, _ => by
      rw [Expr.render]
      exact H.arraySizeText _
  | .unresolved _, _, _, _ => by
      rw [Expr.render]
      exact H.throw _

theorem renderAll (H : RenderingProperty s s' P) : (tys : List Ty) → (es : List Expr) →
    (∀ symbol ∈ Expr.namedAll es, s.resolve symbol = s'.resolve symbol) →
    (∀ slot ∈ Expr.filledAll es, slot.Fills P) →
    (∀ ty ∈ Expr.temporariesAll es, s.SameTemporary s' ty) → P (Expr.renderAll tys es)
  | ty :: tys, e :: es, hnamed, hfilled, htemporaries => by
      simp only [Expr.namedAll, Expr.filledAll, Expr.temporariesAll, List.forall_mem_append]
        at hnamed hfilled htemporaries
      rw [Expr.renderAll]
      apply H.bind (render H e hnamed.1 hfilled.1 htemporaries.1)
      intro text
      apply H.bind (H.cast _ _ _)
      intro first
      exact H.bind (renderAll H tys es hnamed.2 hfilled.2 htemporaries.2) fun _ => H.pure _
  | [], es, _, _, _ => by
      rw [Expr.renderAll]
      · exact H.pure _
      · simp
  | ty :: tys, [], _, _, _ => by
      rw [Expr.renderAll]
      · exact H.pure _
      · simp

theorem renderDefaults (H : RenderingProperty s s' P) (function : String) :
    (supplied : Nat) → (slots : List Slot) →
    (∀ symbol ∈ Expr.namedAfter supplied slots, s.resolve symbol = s'.resolve symbol) →
    (∀ slot ∈ Expr.filledAfter supplied slots, slot.Fills P) →
    (∀ ty ∈ Expr.temporariesAfter supplied slots, s.SameTemporary s' ty) →
    P (Expr.renderDefaults function supplied slots)
  | _, [], _, _, _ => by
      rw [Expr.renderDefaults]
      exact H.pure _
  | supplied + 1, _ :: rest, hnamed, hfilled, htemporaries => by
      rw [Expr.renderDefaults]
      exact renderDefaults H function supplied rest hnamed hfilled htemporaries
  | 0, .required param _ :: _, _, _, _ => by
      rw [Expr.renderDefaults]
      exact H.throw _
  | 0, .optional param ty id default :: rest, hnamed, hfilled, htemporaries => by
      simp only [Expr.namedAfter, Expr.filledAfter, Expr.temporariesAfter, List.forall_mem_cons,
        List.forall_mem_append] at hnamed hfilled htemporaries
      rw [Expr.renderDefaults]
      have first : P (Rendering.defaultText ty id default default.render) := by
        apply hfilled.1
        intro hplain
        exact render H default (by simpa [hplain] using hnamed.1) hfilled.2.1 htemporaries.1
      apply H.bind first
      intro text
      exact H.bind (renderDefaults H function 0 rest hnamed.2 hfilled.2.2 htemporaries.2)
        fun _ => H.pure _
end

section
variable (H : RenderingProperty s s' P) {e : Expr}
  (hnamed : ∀ symbol ∈ e.named, s.resolve symbol = s'.resolve symbol)
  (hfilled : ∀ slot ∈ e.filled, slot.Fills P)
include H hnamed hfilled

theorem renderAs (htemporaries : ∀ ty ∈ e.temporaries, s.SameTemporary s' ty) (ty : Ty) :
    P (e.renderAs ty) := by
  unfold Expr.renderAs
  apply H.bind (H.render e hnamed hfilled htemporaries)
  intro text
  exact H.cast _ _ _

variable (htemporaries : ∀ ty ∈ e.initialTemporaries, s.SameTemporary s' ty)
include htemporaries

theorem renderAs_of_not_aggregate (he : ∀ ty leaves, e = .aggregate ty leaves → False) (ty : Ty) :
    P (e.renderAs ty) := by
  apply H.renderAs hnamed hfilled
  cases e with
  | aggregate ty leaves => exact (he ty leaves rfl).elim
  | _ => exact htemporaries

theorem aggregate {ty' : Ty} {leaves : List Expr} (he : e = .aggregate ty' leaves) {α : Type}
    (ty : Ty) (object : String) {layout : Target → Leaves α}
    (hlayout : layout s.target = layout s'.target) :
    P (Rendering.aggregate ty object leaves layout) := by
  subst he
  unfold Rendering.aggregate Expr.leafTexts
  apply H.bind
  · apply H.bind (H.checkLeaves _ _ _)
    exact fun _ => H.renderAll ty.leaves leaves hnamed hfilled htemporaries
  · intro texts
    exact H.read (by rw [hlayout]) (H.layOut _ _)

theorem initializer (strategy : Strategy) (ty : Ty) (object : String) :
    P (Rendering.initializer strategy ty e object) := by
  have leaves {α : Type} {ty' : Ty} {leaves : List Expr} (he : e = .aggregate ty' leaves)
      {layout : Target → Leaves α} (hlayout : layout s.target = layout s'.target) :
      P (Rendering.aggregate ty object leaves layout) :=
    H.aggregate hnamed hfilled htemporaries he ty object hlayout
  have value (he : ∀ ty leaves, e = .aggregate ty leaves → False) : P (e.renderAs ty) :=
    H.renderAs_of_not_aggregate hnamed hfilled htemporaries he ty
  have filled : s.target.fillStatements ty object = s'.target.fillStatements ty object := by
    rw [H.akin.fillStatements]
  unfold Rendering.initializer
  apply H.read
  · dsimp only
    rw [H.akin.isNative]
  dsimp only
  split
  · exact H.bind (leaves rfl (H.akin.braces ty)) fun _ => H.pure _
  · split
    · exact H.bind (leaves rfl rfl) fun _ => H.pure _
    · exact H.bind (leaves rfl filled) fun _ => H.pure _
  · exact H.bind (leaves rfl filled) fun _ => H.pure _
  · rename_i he
    exact H.bind (value he) fun _ => H.pure _
  · rename_i he
    exact H.bind (value he) fun _ => H.pure _
  · rename_i he
    exact H.bind (value he) fun _ => H.pure _

theorem placeholder {ty : Ty} (hdeclared : e.isAggregate → s.SameTemporary s' ty) (name : String)
    (strategy : Strategy) : P (Rendering.placeholder name strategy ty e) := by
  have value (he : ∀ ty leaves, e = .aggregate ty leaves → False) : P (e.renderAs ty) :=
    H.renderAs_of_not_aggregate hnamed hfilled htemporaries he ty
  unfold Rendering.placeholder
  split
  · exact H.resolved (hnamed _ (List.mem_singleton.mpr rfl))
  · exact H.throw _
  · rename_i leaves _
    apply H.render (.aggregate ty leaves) hnamed hfilled
    exact List.forall_mem_cons.mpr ⟨hdeclared rfl, htemporaries⟩
  · rename_i he
    apply H.read (by rw [H.akin.spelling])
    exact H.bind (value he) fun _ => H.pure _
  · rename_i he
    exact value he

end
end RenderingProperty
end ColorLowering
