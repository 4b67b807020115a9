import ColorLowering.Proofs.Emission.Frame
import ColorLowering.Proofs.Emission.Registers

/-!
# Registers hold what emitters are told

A lowering that keeps in registers what an emitter is told by its caller writes the same texts, has
the same tables and fails alike. What a function returns is only set where its body begins, and what
a constant leaves for the module initializer is taken out again when that is written.
-/
namespace ColorLowering
namespace Lowering

variable {α β γ δ : Type}

/-- Started with the registers `r`, the lowering writes what the emitter writes and fails where it
fails. Where both end, `Ends` relates their results and holds of the registers. -/
structure Performs (ctx : ModuleContext) (r : Registers) (x : Lowering α) (y : Emission β)
    (Ends : α → β → Registers → Prop) : Prop where
  done : ∀ {s b t}, y ctx s = (.ok b, t) → ∃ a r', x ctx ⟨s, r⟩ = (.ok a, ⟨t, r'⟩) ∧ Ends a b r'
  failed : ∀ {s e t}, y ctx s = (.error e, t) → ∃ r', x ctx ⟨s, r⟩ = (.error e, ⟨t, r'⟩)

/-- The results are the same, and so are the registers. -/
def Same (r : Registers) (a b : α) (r' : Registers) : Prop := a = b ∧ r' = r

namespace Performs

variable {ctx : ModuleContext} {r : Registers} {x : Lowering α} {y : Emission β}
  {Ends : α → β → Registers → Prop}

theorem bind {f : α → Lowering γ} {g : β → Emission δ} {Ends' : γ → δ → Registers → Prop}
    (h : Performs ctx r x y Ends) (hf : ∀ a b r', Ends a b r' → Performs ctx r' (f a) (g b) Ends') :
    Performs ctx r (x >>= f) (y >>= g) Ends' where
  done hrun := by
    obtain ⟨b, t, hy, hg⟩ := Emission.bind_eq_ok.mp hrun
    obtain ⟨a, r', hx, hends⟩ := h.done hy
    rw [bind_apply, hx]
    exact (hf a b r' hends).done hg
  failed {s e t} hrun := by
    rw [Emission.bind_apply] at hrun
    rw [bind_apply]
    cases hy : y ctx s with
    | mk result u =>
        rw [hy] at hrun
        cases result with
        | error e' =>
            cases hrun
            obtain ⟨r', hx⟩ := h.failed hy
            exact ⟨r', by rw [hx]⟩
        | ok b =>
            obtain ⟨a, r', hx, hends⟩ := h.done hy
            rw [hx]
            exact (hf a b r' hends).failed hrun

theorem next {x : Lowering α} {y : Emission α} {f : α → Lowering γ} {g : α → Emission δ}
    {Ends' : γ → δ → Registers → Prop} (h : Performs ctx r x y (Same r))
    (hf : ∀ a, Performs ctx r (f a) (g a) Ends') : Performs ctx r (x >>= f) (y >>= g) Ends' :=
  h.bind fun a b r' hsame => by
    obtain ⟨rfl, rfl⟩ := hsame
    exact hf a

theorem mono {Ends' : α → β → Registers → Prop} (h : Performs ctx r x y Ends)
    (hends : ∀ a b r', Ends a b r' → Ends' a b r') : Performs ctx r x y Ends' where
  done hrun := by
    obtain ⟨a, r', hx, ha⟩ := h.done hrun
    exact ⟨a, r', hx, hends _ _ _ ha⟩
  failed := h.failed

theorem mapped {g : β → δ} (h : Performs ctx r x y Ends) :
    Performs ctx r x (y >>= fun b => pure (g b)) fun a d r' => ∃ b, g b = d ∧ Ends a b r' := by
  have ends (a : α) (b : β) (r' : Registers) (hends : Ends a b r') :
      Performs ctx r' (Pure.pure a : Lowering α) (Pure.pure (g b) : Emission δ)
        fun a d r' => ∃ b, g b = d ∧ Ends a b r' :=
    ⟨fun hrun => by cases hrun; exact ⟨_, _, rfl, _, rfl, hends⟩, fun hrun => by cases hrun⟩
  rw [← bind_pure x]
  exact h.bind ends

theorem pure {a : α} {b : β} (h : Ends a b r) :
    Performs ctx r (Pure.pure a) (Pure.pure b) Ends where
  done hrun := by
    cases hrun
    exact ⟨a, r, rfl, h⟩
  failed hrun := by cases hrun

theorem throw (e : Failure) :
    Performs ctx r (throw e : Lowering α) (throw e : Emission β) Ends where
  done hrun := by cases hrun
  failed hrun := by
    cases hrun
    exact ⟨r, rfl⟩

theorem emit (y : Emission α) : Performs ctx r (emit y) y (Same r) where
  done {s b t} hrun := ⟨b, r, by simp [Lowering.emit, ExceptT.mk, hrun], rfl, rfl⟩
  failed {s e t} hrun := ⟨r, by simp [Lowering.emit, ExceptT.mk, hrun]⟩

theorem registers {f : Registers → Lowering α} (h : Performs ctx r (f r) y Ends) :
    Performs ctx r (Lowering.registers >>= f) y Ends := ⟨h.done, h.failed⟩

theorem setReturnTy {ty : Ty} {x : Lowering α}
    (h : Performs ctx { r with returnTy := ty } x y Ends) :
    Performs ctx r (do Lowering.setReturnTy ty; x) y Ends := ⟨h.done, h.failed⟩

theorem setDeferred {statements : List String} {x : Lowering α}
    (h : Performs ctx { r with deferred := statements } x y Ends) :
    Performs ctx r (do Lowering.setDeferred statements; x) y Ends := ⟨h.done, h.failed⟩

theorem read {f : ModuleContext → Lowering α} {g : ModuleContext → Emission β}
    (h : Performs ctx r (f ctx) (g ctx) Ends) :
    Performs ctx r (MonadReader.read >>= f) (MonadReader.read >>= g) Ends := ⟨h.done, h.failed⟩

theorem braced {x : Lowering Unit} {y : Emission Unit} {Ends : Unit → Unit → Registers → Prop}
    (h : Performs ctx r x y Ends) : Performs ctx r (braced x) (Emission.braced y) Ends :=
  (emit _).next fun _ => h.bind fun _ _ _ hends =>
    (emit _).mono fun _ _ _ hsame => by rw [hsame.2]; exact hends

theorem indented {x : Lowering Unit} {y : Emission Unit} {Ends : Unit → Unit → Registers → Prop}
    (h : Performs ctx r x y Ends) : Performs ctx r (indented x) (Emission.indented y) Ends :=
  (emit _).next fun _ => h.bind fun _ _ _ hends =>
    (emit _).mono fun _ _ _ hsame => by rw [hsame.2]; exact hends

theorem branch {x : Lowering Unit} {y : Emission Unit} (statements : List Stmt)
    {Ends : Unit → Unit → Registers → Prop} (h : Performs ctx r x y Ends) :
    Performs ctx r (branch statements x) (Emission.branch statements y) Ends := by
  match statements with
  | [] | _ :: _ :: _ => exact h.braced
  | [s] =>
      dsimp only [Lowering.branch, Emission.branch]
      cases s.isDeclaration with
      | true => exact h.braced
      | false => exact h.indented

end Performs

section
variable {ctx : ModuleContext} {r : Registers}

theorem performs_rendered (hr : r.qualifyAll = false) (x : Rendering α) :
    Performs ctx r (rendered x) (Emission.render x) (Same r) := by
  apply Performs.registers
  rw [hr]
  exact .emit _

theorem performs_localVariable (hr : r.qualifyAll = false) (symbol : SymbolId)
    (init : Option Expr) :
    Performs ctx r (localVariable symbol init) (Emission.localVariable symbol init) (Same r) := by
  unfold localVariable Emission.localVariable
  apply Performs.read
  dsimp only
  cases init with
  | none => exact .emit _
  | some init =>
      cases (ctx.target.declare (Text.unqualified (ctx.program.symbol symbol).name)
        (ctx.program.symbol symbol).ty
        (.object !(ctx.program.symbol symbol).isWritable)).strategy with
      | none => exact .throw _
      | some strategy =>
          apply (performs_rendered hr _).next
          intro i
          cases i with
          | inline text => exact .emit _
          | deferred statements =>
              apply (Performs.emit _).next
              intro _
              exact (Performs.emit _).braced

mutual
theorem performs_statement (hr : r.qualifyAll = false) (keyword : String) : (s : Stmt) →
    Performs ctx r (statement keyword s) (Emission.statement r.returnTy keyword s) (Same r)
  | .declare symbol init => by
      rw [statement, Emission.statement]
      exact performs_localVariable hr symbol init
  | .assign target value => by
      rw [statement, Emission.statement]
      apply (performs_rendered hr _).next
      intro t
      apply (performs_rendered hr _).next
      intro v
      exact .emit _
  | .eval e => by
      rw [statement, Emission.statement]
      apply (performs_rendered hr _).next
      intro text
      exact .emit _
  | .branch cond thenBody elseBody => by
      rw [statement, Emission.statement]
      apply (performs_rendered hr _).next
      intro c
      apply (Performs.emit _).next
      intro _
      apply ((performs_statements hr "if" thenBody).branch thenBody).next
      intro _
      split
      · exact .pure ⟨rfl, rfl⟩
      · split
        · exact performs_statements hr "else if" elseBody
        · apply (Performs.emit _).next
          intro _
          exact (performs_statements hr "if" elseBody).branch elseBody
  | .loop cond body => by
      rw [statement, Emission.statement]
      apply (performs_rendered hr _).next
      intro c
      apply (Performs.emit _).next
      intro _
      exact (performs_statements hr "if" body).braced
  | .ret none => by
      rw [statement, Emission.statement]
      exact .emit _
  | .ret (some value) => by
      rw [statement, Emission.statement]
      apply Performs.registers
      apply (performs_rendered hr _).next
      intro text
      exact .emit _
  | .unresolved => by
      rw [statement, Emission.statement]
      exact .throw _

theorem performs_statements (hr : r.qualifyAll = false) (keyword : String) :
    (body : List Stmt) → Performs ctx r (statements keyword body)
      (Emission.statements r.returnTy keyword body) (Same r)
  | [] => by
      rw [statements, Emission.statements]
      exact .pure ⟨rfl, rfl⟩
  | s :: rest => by
      rw [statements, Emission.statements]
      apply (performs_statement hr keyword s).next
      intro _
      exact performs_statements hr keyword rest
end

/-- Of the registers, only the type that a function returns is different after it. -/
theorem performs_function (hr : r.qualifyAll = false) (f : Function) :
    Performs ctx r (function f) (Emission.function f) fun _ _ r' =>
      ∃ ret, r' = { r with returnTy := ret } := by
  unfold function Emission.function
  apply Performs.read
  apply (Performs.emit _).next
  rintro ⟨params, ret⟩
  have definition (head : String) : Performs ctx r
      (do
        line head
        braced do
          setReturnTy ret
          statements "if" f.body
        emit Emission.blank)
      (Emission.functionDefinition head ret f.body)
      fun _ _ r' => ∃ ret, r' = { r with returnTy := ret } := by
    apply (Performs.emit _).next
    intro _
    have body : Performs ctx r (do setReturnTy ret; statements "if" f.body)
        (Emission.statements ret "if" f.body) (Same { r with returnTy := ret }) :=
      .setReturnTy (performs_statements (r := { r with returnTy := ret }) hr "if" f.body)
    refine body.braced.bind fun _ _ _ hsame => ?_
    rw [hsame.2]
    exact (Performs.emit _).mono fun _ _ _ hblank => ⟨ret, hblank.2⟩
  dsimp only
  split
  · apply (Performs.emit _).next
    intro _
    apply (Performs.emit _).next
    intro k
    exact definition _
  · apply (Performs.emit _).next
    intro k
    exact definition _

theorem performs_functions (hr : r.qualifyAll = false) (functions : List Function) :
    Performs ctx r (functions.forM function) (functions.forM Emission.function) fun _ _ r' =>
      ∃ ret, r' = { r with returnTy := ret } := by
  simp only [List.forM_eq_forM]
  induction functions generalizing r with
  | nil => exact .pure ⟨r.returnTy, rfl⟩
  | cons f rest ih =>
      rw [List.forM_cons, List.forM_cons]
      refine (performs_function hr f).bind ?_
      rintro _ _ _ ⟨ret, rfl⟩
      exact ih hr

theorem performs_declareGlobal (strategy : Strategy) (c : LoweredConstant) :
    Performs ctx r (declareGlobal strategy c) (Emission.declareGlobal strategy c)
      fun _ lowered r' => lowered = c ∧ r' = r := by
  unfold declareGlobal Emission.declareGlobal
  apply (Performs.emit _).next
  intro k
  apply (Performs.emit _).next
  intro _
  exact (Performs.emit _).mapped.mono fun _ _ _ h => ⟨h.choose_spec.1.symm, h.choose_spec.2.2⟩

/-- The statements of a declared constant are added to those left for the module initializer. -/
theorem performs_declaredConstant (hr : r.qualifyAll = false) (c : Constant) (name : String)
    (ty : Ty) (strategy : Strategy) (declaration : String) :
    Performs ctx r (declaredConstant c name ty strategy declaration)
      (Emission.declaredConstant c name ty strategy declaration)
      fun _ lowered r' => r' = r.defer lowered.statements := by
  have plain {lowered : LoweredConstant} (hnone : lowered.statements = []) (strategy : Strategy) :
      Performs ctx r (declareGlobal strategy lowered) (Emission.declareGlobal strategy lowered)
        fun _ lowered r' => r' = r.defer lowered.statements :=
    (performs_declareGlobal strategy lowered).mono fun _ _ _ h => by
      rw [h.1, hnone, h.2, Registers.defer, List.append_nil]
  unfold declaredConstant Emission.declaredConstant
  cases c.init with
  | none => exact plain rfl strategy
  | some init =>
      apply (performs_rendered hr _).next
      intro i
      cases i with
      | inline text => exact plain rfl strategy
      | deferred statements =>
          apply Performs.read
          rw [← bind_pure (Emission.declareGlobal _ _)]
          refine (performs_declareGlobal .deferred _).bind ?_
          rintro _ lowered _ ⟨rfl, rfl⟩
          apply Performs.registers
          exact ⟨fun hrun => by cases hrun; exact ⟨_, _, rfl, rfl⟩, fun hrun => by cases hrun⟩

theorem performs_placeholderConstant (c : Constant) (name : String) (ty : Ty)
    (strategy : Strategy) : Performs ctx r (placeholderConstant c name ty strategy)
      (Emission.placeholderConstant c name ty strategy) (Same r) := by
  unfold placeholderConstant Emission.placeholderConstant
  cases c.init with
  | none => exact .pure ⟨rfl, rfl⟩
  | some init =>
      dsimp only
      rw [placeholderText_eq]
      apply (Performs.emit _).next
      intro text
      apply (Performs.emit _).next
      intro k
      exact .emit _

theorem performs_constant (hr : r.qualifyAll = false) (c : Constant) :
    Performs ctx r (constant c) (Emission.constant c) fun _ out r' =>
      r' = r.defer (out.toList.flatMap LoweredConstant.statements) := by
  have nothing : r = r.defer ((none : Option LoweredConstant).toList.flatMap
      LoweredConstant.statements) := by
    simp [Registers.defer]
  unfold constant Emission.constant
  apply Performs.read
  apply (Performs.emit _).next
  intro k
  dsimp only
  split
  · exact .pure nothing
  · generalize (if Emission.isForced ctx k c then some Strategy.deferred
      else (ctx.target.declare (Text.unqualified (ctx.program.symbol c.symbol).name)
        (ctx.program.symbol c.symbol).ty (.object (!(ctx.program.symbol c.symbol).isWritable &&
          !Emission.isForced ctx k c))).strategy) = chosen
    cases chosen with
    | none => exact .throw _
    | some strategy =>
      dsimp only
      split
      · refine ((performs_placeholderConstant c _ _ strategy).mapped).mono ?_
        rintro _ _ _ ⟨_, rfl, -, rfl⟩
        exact nothing
      · refine ((performs_declaredConstant hr c _ _ strategy _).mapped).mono ?_
        rintro _ _ _ ⟨lowered, rfl, rfl⟩
        simp

theorem performs_constantList (hr : r.qualifyAll = false) (cs : List Constant) :
    Performs ctx r (constantList cs) (Emission.constantList cs) fun _ lowered r' =>
      r' = r.defer (lowered.flatMap LoweredConstant.statements) := by
  induction cs generalizing r with
  | nil => exact .pure (by simp [Registers.defer])
  | cons c rest ih =>
      refine (performs_constant hr c).bind ?_
      rintro _ out _ rfl
      refine ((ih (r := r.defer _) hr).mapped).mono ?_
      rintro _ _ _ ⟨lowered, rfl, rfl⟩
      simp [Registers.defer, List.append_assoc]

/-- A module that is begun with names unqualified and nothing left for its initializer is lowered as
it is by the emitters that are told all this, and it ends that way. -/
theorem performs_module (hr : r.qualifyAll = false) (hnone : r.deferred = []) (m : Module) :
    Performs ctx r (module m) (Emission.module m) fun _ _ r' =>
      ∃ ret, r' = { r with returnTy := ret } := by
  unfold module Emission.module
  apply (Performs.emit _).next
  intro _
  rw [Emission.constants, bind_assoc]
  refine (performs_constantList hr m.constants).bind ?_
  rintro _ lowered _ rfl
  have waiting : (r.defer (lowered.flatMap LoweredConstant.statements)).deferred =
      lowered.flatMap LoweredConstant.statements := by simp [Registers.defer, hnone]
  have rest : Performs ctx (r.defer (lowered.flatMap LoweredConstant.statements))
      (do
        moduleInitializer
        m.functions.forM function
        line ("\x7d // namespace " ++ (← read).namespaceText))
      (do
        Emission.moduleInitializer (lowered.flatMap LoweredConstant.statements)
        Emission.ending m)
      fun _ _ r' => ∃ ret, r' = { r with returnTy := ret } := by
    unfold moduleInitializer
    simp only [bind_assoc]
    apply Performs.registers
    rw [waiting]
    apply Performs.setDeferred
    apply (Performs.emit _).next
    intro _
    unfold Emission.ending
    refine (performs_functions (r := { r.defer _ with deferred := [] }) hr m.functions).bind ?_
    rintro _ _ _ ⟨ret, rfl⟩
    apply Performs.read
    refine (Performs.emit _).mono ?_
    rintro _ _ _ ⟨-, rfl⟩
    exact ⟨ret, by simp [Registers.defer, hnone]⟩
  split
  · exact rest
  · dsimp only
    rw [bind_assoc]
    apply (Performs.emit _).next
    intro _
    rw [pure_bind]
    exact rest

end

end Lowering
end ColorLowering
