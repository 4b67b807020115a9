import ColorLowering.Proofs.Aggregate.Counting
import ColorLowering.Proofs.Defaults.Transparent
import ColorLowering.Proofs.Reading.Expression
import ColorLowering.Proofs.Reading.Legible

/-!
# Texts of expressions are read back

The text of a legible expression is an operand, and it reads as the tree of the expression. The
induction is over the expression and, where a call omits arguments, over their defaults; it carries
that the texts known of literals, placeholders and defaults are operands, and leaves it so.
-/
namespace ColorLowering

open Cpp

structure Scope.Readable (s : Scope) : Prop where
  vectors : isIdentifier s.target.vectorNamespace.toList
  namespaces : s.program.ReadableNamespaces
  functions : ∀ symbol, (s.program.symbol symbol).isFunction → ¬s.program.Literal symbol
  known : s.known.Readable s.program

/-- The text is an operand that reads as the tree, and where a part of the expression may be taken,
a part of the text may be. -/
def Expr.Shown (p : Program) (e : Expr) (text : String) (tree : Tree) : Prop :=
  ReadsAs text tree ∧ (e.IsBase p → Base text tree)

theorem Cpp.Base.shown {p : Program} {e : Expr} {text : String} {tree : Tree} (h : Base text tree) :
    e.Shown p text tree := ⟨h.readsAs, fun _ => h⟩

namespace Rendering

variable {α β γ δ : Type} {s : Scope}

/-- The second rendering ends where the first does, and keeps the same texts. Their results stand in
the relation, and the texts kept are readable as before. -/
def Parallel (Q : α → β → Prop) (s : Scope) (r : Rendering α) (r' : Rendering β) : Prop :=
  ∀ texts, texts.Readable → (r s texts).2.Readable ∧
    ∀ a later, r s texts = (.ok a, later) → ∃ b, r' s texts = (.ok b, later) ∧ Q a b

abbrev Yields (P : α → Prop) (s : Scope) (r : Rendering α) : Prop :=
  Parallel (fun a b => a = b ∧ P a) s r r

namespace Parallel

variable {Q : α → β → Prop} {Q' : γ → δ → Prop}

theorem pure {a : α} {b : β} (h : Q a b) : Parallel Q s (pure a) (pure b) := by
  intro texts htexts
  refine ⟨htexts, fun a' later hrun => ?_⟩
  cases hrun
  exact ⟨b, rfl, h⟩

theorem failed {r : Rendering α} {r' : Rendering β} {e : Failure}
    (h : ∀ texts, r s texts = (.error e, texts)) : Parallel Q s r r' := by
  intro texts htexts
  rw [h texts]
  exact ⟨htexts, fun _ _ hrun => by cases hrun⟩

theorem bind {x : Rendering α} {x' : Rendering β} {f : α → Rendering γ} {f' : β → Rendering δ}
    (hx : Parallel Q s x x') (hf : ∀ a b, Q a b → Parallel Q' s (f a) (f' b)) :
    Parallel Q' s (x >>= f) (x' >>= f') := by
  intro texts htexts
  obtain ⟨hlater, hends⟩ := hx texts htexts
  rw [bind_apply, bind_apply]
  cases hrun : x s texts with
  | mk result later =>
      rw [hrun] at hlater
      cases result with
      | error e => exact ⟨hlater, fun _ _ h => by cases h⟩
      | ok a =>
          obtain ⟨b, hb, hab⟩ := hends a later hrun
          rw [hb]
          exact hf a b hab later hlater

theorem read {f : Scope → Rendering α} {f' : Scope → Rendering β} (h : Parallel Q s (f s) (f' s)) :
    Parallel Q s (MonadReader.read >>= f) (MonadReader.read >>= f') := h

theorem mono {r : Rendering α} {r' : Rendering β} (h : Parallel Q s r r') {Q' : α → β → Prop}
    (hQ : ∀ a b, Q a b → Q' a b) : Parallel Q' s r r' := by
  intro texts htexts
  obtain ⟨hlater, hends⟩ := h texts htexts
  refine ⟨hlater, fun a later hrun => ?_⟩
  obtain ⟨b, hb, hab⟩ := hends a later hrun
  exact ⟨b, hb, hQ a b hab⟩

theorem yields {r : Rendering α} {r' : Rendering β} (h : Parallel Q s r r') {P : α → Prop}
    (hP : ∀ a b, Q a b → P a) : Yields P s r := by
  intro texts htexts
  obtain ⟨hlater, hends⟩ := h texts htexts
  refine ⟨hlater, fun a later hrun => ?_⟩
  obtain ⟨b, -, hab⟩ := hends a later hrun
  exact ⟨a, hrun, rfl, hP a b hab⟩

theorem cast {text : String} {tree : Tree} (h : ReadsAs text tree) (wanted given : Ty) :
    Parallel ReadsAs s (Rendering.cast wanted given text) (Rendering.castTree wanted given tree) :=
  read (pure (h.cast s.target wanted given))

end Parallel

theorem Yields.bind {P : α → Prop} {P' : γ → Prop} {x : Rendering α} {f : α → Rendering γ}
    (hx : Yields P s x) (hf : ∀ a, P a → Yields P' s (f a)) : Yields P' s (x >>= f) := by
  apply Parallel.bind hx
  rintro a _ ⟨rfl, h⟩
  exact hf a h

/-! ### Parts of an expression -/

theorem treeOf_eq {text : String} {tree : Tree} (h : Cpp.read text = some tree) :
    treeOf text = pure tree := by rw [treeOf, h]

theorem mapM_treeOf {texts : List String} {trees : List Tree}
    (h : List.Forall₂ ReadsAs texts trees) : texts.mapM treeOf = pure trees := by
  induction h with
  | nil => rfl
  | cons htext _ ih => rw [List.mapM_cons, treeOf_eq htext.read, pure_bind, ih, pure_bind]

section
variable (hs : s.Readable)
include hs

/-- The name of a symbol is an operand whether its text is a reference or a literal. -/
theorem parallel_name {symbol : SymbolId} (ty : Ty)
    (hname : isIdentifier (s.program.symbol symbol).name.toList) :
    Parallel ((Expr.name ty symbol).Shown s.program) s (resolved symbol) (nameTree symbol) := by
  refine Parallel.read ?_
  cases hliteral : s.known.literals.get? symbol with
  | some text =>
      obtain ⟨tree, htree⟩ := hs.known.literals symbol text hliteral
      have reference : s.resolve symbol = text := by rw [Scope.resolve, hliteral]
      simp only [reference, treeOf_eq htree.read]
      exact .pure ⟨htree, fun hbase => absurd (hs.known.literal symbol text hliteral) hbase⟩
  | none => exact .pure (Scope.base_resolve hs.namespaces hname hliteral).shown

theorem yields_function {symbol : SymbolId} (hfunction : (s.program.symbol symbol).isFunction)
    (hname : isIdentifier (s.program.symbol symbol).name.toList) :
    Yields (fun function => Base function (.ofName function)) s (resolved symbol) := by
  refine Parallel.read (.pure ⟨rfl, Scope.base_resolve hs.namespaces hname ?_⟩)
  cases hliteral : s.known.literals.get? symbol with
  | none => rfl
  | some text =>
      exact absurd (hs.known.literal symbol text hliteral) (hs.functions symbol hfunction)

theorem yields_defaultText {default : Expr} (hlegible : default.Legible s.program)
    (hrender : Parallel (default.Shown s.program) s default.render default.tree) (ty : Ty)
    (id : ExprId) : Yields (fun text => ∃ tree, ReadsAs text tree) s
      (defaultText ty id default default.render) := by
  intro texts htexts
  cases hplain : default.plainName? with
  | some symbol =>
      rw [defaultText_plain hplain]
      refine ⟨htexts, fun text later hrun => ⟨text, hrun, rfl, ?_⟩⟩
      cases hrun
      cases hknown : s.known.defaults.get? symbol with
      | some known => exact hs.known.defaults symbol known hknown
      | none =>
          obtain ⟨given, rfl⟩ : ∃ given, default = .name given symbol := by
            cases default with
            | name given other => exact ⟨given, by rw [Option.some.inj hplain]⟩
            | _ => cases hplain
          obtain ⟨-, hname⟩ := parallel_name hs given hlegible texts htexts
          obtain ⟨tree, -, htree, -⟩ := hname _ texts rfl
          exact ⟨_, htree.cast s.target ty given⟩
  | none =>
      rw [defaultText_complex hplain]
      cases hkept : texts.get? (id, s.module) with
      | some known =>
          refine ⟨htexts, fun text later hrun => ⟨text, hrun, rfl, ?_⟩⟩
          cases hrun
          exact htexts _ known hkept
      | none =>
          obtain ⟨hlater, hends⟩ := hrender texts htexts
          cases hrun : default.render s texts with
          | mk result later =>
              rw [hrun] at hlater
              cases result with
              | error e => exact ⟨hlater, fun _ _ h => by cases h⟩
              | ok raw =>
                  obtain ⟨tree, -, htree, -⟩ := hends raw later hrun
                  have fresh := htree.cast s.target ty default.ty
                  refine ⟨fun key text htext => ?_, fun text kept h => ⟨text, h, rfl, ?_⟩⟩
                  · obtain ⟨-, rfl⟩ | hbefore := DefaultTexts.get?_insert htext
                    · exact ⟨_, fresh⟩
                    · exact hlater key text hbefore
                  · cases h
                    exact ⟨_, fresh⟩

omit hs in
theorem yields_temporary (ty : Ty) : Yields (fun found =>
    s.target.nativeSpelling? ty = some found.1 ∧ found.2 = true ∨
      s.target.nativeSpelling? ty = none ∧ found = (s.target.spelling ty, false)) s
    (temporary ty) := by
  unfold temporary
  apply Parallel.read
  dsimp only
  cases hnative : s.target.nativeSpelling? ty with
  | some spelling => exact .pure ⟨rfl, .inl ⟨rfl, rfl⟩⟩
  | none =>
      dsimp only
      split
      · exact .pure ⟨rfl, .inr ⟨rfl, rfl⟩⟩
      · exact .failed fun _ => rfl

/-- A temporary is a construction of its type over the leaves, or a list after its type. -/
theorem parallel_temporary {ty : Ty} (hcomposite : ty.isComposite) (hnamed : ty.Named)
    {ts : List String} {trees : List Tree} (hts : ts.length = ty.leafCount)
    (h : List.Forall₂ ReadsAs ts trees) {found : String × Bool}
    (hfound : s.target.nativeSpelling? ty = some found.1 ∧ found.2 = true ∨
      s.target.nativeSpelling? ty = none ∧ found = (s.target.spelling ty, false)) :
    Parallel Base s (layOutTemporary ty found.1 found.2 ts)
      (temporaryTree ty found.1 found.2 trees) := by
  unfold layOutTemporary temporaryTree
  obtain ⟨hnative, hconstructed⟩ | ⟨hnative, rfl⟩ := hfound
  · have head := s.target.base_nativeSpelling hs.vectors hnative
    have arguments : layOut (Leaves.flat ty) ts = pure ts := by
      have run := Leaves.run_flat hts []
      rw [List.append_nil] at run
      rw [layOut, run]
    rw [hconstructed, arguments, treeOf_eq head.readsAs.read, if_pos rfl, pure_bind, pure_bind,
      if_pos rfl]
    exact .pure (head.apply h)
  · obtain ⟨head, hhead, hbase⟩ := s.target.base_list hs.vectors hnamed hcomposite hnative hts h
    have list : layOut (s.target.braces ty) ts = pure (s.target.mirror ty ts).layout := by
      have run := s.target.run_braces ty ts [] hts
      rw [List.append_nil] at run
      rw [layOut, run]
    rw [treeOf_eq hhead.read, if_neg Bool.false_ne_true, pure_bind,
      if_neg Bool.false_ne_true]
    apply Parallel.read
    rw [list, pure_bind]
    exact .pure hbase

omit hs in
theorem parallel_size {array : Expr} {ty : Ty} (sizeTy : Ty) :
    Parallel ((Expr.size ty array).Shown s.program) s (arraySizeText sizeTy)
      (do return .literal (← arraySizeText sizeTy).toList) := by
  unfold arraySizeText
  split
  · exact .pure ⟨(isNumber_toString _).operand rfl, fun h => h.elim⟩
  · exact .failed fun _ => rfl

end

mutual
/-- The text of an expression reads as its tree. -/
theorem parallel_render (hs : s.Readable) : (e : Expr) → e.Legible s.program →
    Parallel (e.Shown s.program) s e.render e.tree
  | .literal _ value, _ => by
      rw [Expr.render, Expr.tree]
      exact .pure ⟨readsAs_literal value, fun h => h.elim⟩
  | .name ty symbol, h => by
      rw [Expr.render, Expr.tree]
      exact parallel_name hs ty h
  | .binary _ op operandTy left right, h => by
      rw [Expr.Legible] at h
      rw [Expr.render, Expr.tree]
      apply (parallel_render hs left h.1).bind
      intro _ _ hleft
      apply (Parallel.cast hleft.1 _ _).bind
      intro l leftTree hl
      apply (parallel_render hs right h.2).bind
      intro _ _ hright
      apply (Parallel.cast hright.1 _ _).bind
      intro r rightTree hr
      exact .pure (hl.binary hr op).shown
  | .unary _ op operand, h => by
      rw [Expr.Legible] at h
      rw [Expr.render, Expr.tree]
      apply (parallel_render hs operand h).bind
      intro _ _ hoperand
      apply (Parallel.cast hoperand.1 _ _).bind
      intro text tree htext
      exact .pure ⟨htext.unary op, fun h => h.elim⟩
  | .index _ array position, h => by
      rw [Expr.Legible] at h
      rw [Expr.render, Expr.tree]
      apply (parallel_render hs array h.2.1).bind
      intro a arrayTree ha
      apply (parallel_render hs position h.2.2).bind
      intro _ _ hposition
      apply (Parallel.cast hposition.1 _ _).bind
      intro i positionTree hi
      exact .pure ((ha.2 h.1).index hi).shown
  | .member _ object field, h => by
      rw [Expr.Legible] at h
      rw [Expr.render, Expr.tree]
      apply (parallel_render hs object h.2.1).bind
      intro text tree htext
      exact .pure ((htext.2 h.1).member h.2.2).shown
  | .call _ (.function symbol slots) args, h => by
      rw [Expr.Legible] at h
      obtain ⟨hfunction, hname, hargs, hslots⟩ := h
      rw [Expr.render, Expr.tree]
      apply Parallel.bind (yields_function hs hfunction hname)
      rintro function _ ⟨rfl, hbase⟩
      dsimp only
      split
      · exact .failed fun _ => rfl
      · apply (parallel_renderAll hs (slots.map Slot.ty) args hargs).bind
        intro supplied suppliedTrees hsupplied
        apply Parallel.bind (yields_renderDefaults hs function args.length slots hslots)
        rintro omitted _ ⟨rfl, omittedTrees, homitted⟩
        rw [mapM_treeOf homitted, pure_bind]
        exact .pure (hbase.call (List.rel_append hsupplied.1 homitted)).shown
  | .call _ (.variable symbol) _, _ => by
      rw [Expr.render]
      exact .failed fun _ => rfl
  | .call _ .computed _, _ => by
      rw [Expr.render]
      exact .failed fun _ => rfl
  | .aggregate ty leaves, h => by
      rw [Expr.Legible] at h
      obtain ⟨hcomposite, hnamed, hleaves⟩ := h
      rw [Expr.render, Expr.tree]
      apply Parallel.bind (yields_temporary ty)
      rintro ⟨spelling, isNative⟩ _ ⟨rfl, hfound⟩
      dsimp only
      obtain ⟨hcount, hpass⟩ | ⟨e, hstop⟩ := checkLeaves_cases ty spelling leaves.length
      · rw [hpass, pure_bind]
        apply (parallel_renderAll hs ty.leaves leaves hleaves).bind
        rintro ts trees ⟨hts, hlength⟩
        rw [ty.length_leaves] at hlength
        have every := hlength (Ty.leafCount_of_leafCount? hcount).symm
        exact (parallel_temporary hs hcomposite hnamed every hts hfound).mono
          fun _ _ hbase => hbase.shown
      · rw [hstop]
        exact .failed fun _ => rfl
  | .size _ array, _ => by
      rw [Expr.render, Expr.tree]
      exact parallel_size array.ty
  | .unresolved _, _ => by
      rw [Expr.render]
      exact .failed fun _ => rfl

theorem parallel_renderAll (hs : s.Readable) : (tys : List Ty) → (es : List Expr) →
    Expr.AllLegible s.program es →
    Parallel (fun ts trees => List.Forall₂ ReadsAs ts trees ∧
      (es.length = tys.length → ts.length = tys.length)) s
      (Expr.renderAll tys es) (Expr.trees tys es)
  | ty :: tys, e :: es, h => by
      rw [Expr.AllLegible] at h
      rw [Expr.renderAll, Expr.trees]
      apply (parallel_render hs e h.1).bind
      intro _ _ hshown
      apply (Parallel.cast hshown.1 _ _).bind
      intro first firstTree hfirst
      apply (parallel_renderAll hs tys es h.2).bind
      rintro ts trees ⟨hts, hlength⟩
      refine .pure ⟨.cons hfirst hts, fun h => ?_⟩
      rw [List.length_cons, hlength (by simpa using h), List.length_cons]
  | [], es, _ => by
      rw [Expr.renderAll, Expr.trees]
      · exact .pure ⟨.nil, fun _ => rfl⟩
      · simp
      · simp
  | ty :: tys, [], _ => by
      rw [Expr.renderAll, Expr.trees]
      · exact .pure ⟨.nil, fun h => (by cases h)⟩
      · simp
      · simp

theorem yields_renderDefaults (hs : s.Readable) (function : String) : (supplied : Nat) →
    (slots : List Slot) → Expr.SlotsLegible s.program slots →
    Yields (fun ts => ∃ trees, List.Forall₂ ReadsAs ts trees) s
      (Expr.renderDefaults function supplied slots)
  | _, [], _ => by
      rw [Expr.renderDefaults]
      exact .pure ⟨rfl, [], .nil⟩
  | supplied + 1, slot :: rest, h => by
      rw [Expr.renderDefaults]
      apply yields_renderDefaults hs function supplied rest
      cases slot with
      | required => exact h
      | optional => exact h.2
  | 0, .required param _ :: _, _ => by
      rw [Expr.renderDefaults]
      exact .failed fun _ => rfl
  | 0, .optional param ty id default :: rest, h => by
      rw [Expr.SlotsLegible] at h
      rw [Expr.renderDefaults]
      have first := yields_defaultText hs h.1 (parallel_render hs default h.1) ty id
      apply Yields.bind first
      rintro text ⟨tree, htree⟩
      apply Yields.bind (yields_renderDefaults hs function 0 rest h.2)
      rintro ts ⟨trees, htrees⟩
      exact .pure ⟨rfl, tree :: trees, .cons htree htrees⟩
end

end Rendering
end ColorLowering
