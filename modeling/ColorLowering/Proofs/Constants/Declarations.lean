import ColorLowering.Proofs.Constants.Section

/-!
# How a constant is declared and registered

A declared constant is registered as deferred if it is forced to wait, if its type has no
initializer in this dialect, or if it is a string that is given leaf by leaf. Only a constant that
is not registered so has an initializer in its declaration, and it is `const` unless it is writable.
-/
namespace ColorLowering

namespace Target

def objectText (t : Target) (name : String) (ty : Ty) : String :=
  (t.spell ty false).base ++ (if name.isEmpty then "" else " " ++ name) ++ (t.spell ty false).suffix

def IsStructOrContainer (t : Target) : Ty → Prop
  | .struct _ _ => True
  | .array elem size => ∃ elem', t.arrayForm elem size false = .container elem'
  | _ => False

variable {t : Target} {ty : Ty}

theorem strategy?_eq_deferred_iff :
    t.strategy? ty = some .deferred ↔ t.isModern = false ∧ t.IsStructOrContainer ty := by
  cases ty with
  | void => simp [strategy?, Ty.isVoid, IsStructOrContainer]
  | scalar s => simp [strategy?, Ty.isVoid, shape, strategyOf, IsStructOrContainer]
  | string => simp [strategy?, Ty.isVoid, shape, strategyOf, IsStructOrContainer]
  | struct name members =>
      cases hmodern : t.isModern <;>
        simp [strategy?, Ty.isVoid, shape, strategyOf, hmodern, IsStructOrContainer]
  | array elem size =>
      cases hform : t.arrayForm elem size false <;> cases hmodern : t.isModern <;>
        simp [strategy?, Ty.isVoid, shape, hform, strategyOf, hmodern, IsStructOrContainer]

theorem isNative_string : t.isNative .string = false := rfl

theorem qualifiers_object {strategy : Strategy} (h : t.strategy? ty = some strategy)
    (isConst : Bool) :
    t.qualifiers ty (.object isConst) = (isConst && decide (strategy ≠ .deferred), false) := by
  cases ty with
  | void => cases h
  | scalar s => cases h; simp [qualifiers, DeclMode.object, shape, strategyOf]
  | string => cases h; simp [qualifiers, DeclMode.object, shape, strategyOf]
  | struct name members =>
      cases h
      cases hmodern : t.isModern <;>
        simp [qualifiers, DeclMode.object, shape, strategyOf, hmodern]
  | array elem size =>
      have chosen := h
      simp only [strategy?, Ty.isVoid, shape, Bool.false_eq_true, if_false, Option.some.injEq] at h
      subst h
      rw [qualifiers, chosen]
      cases hform : t.arrayForm elem size false with
      | native spelling shape => simp [DeclMode.object, strategyOf]
      | raw scalar size => simp [DeclMode.object, strategyOf]
      | container elem =>
          cases hmodern : t.isModern <;> simp [DeclMode.object, strategyOf, hmodern]

theorem declare_object (t : Target) (ty : Ty) (name : String) (isConst : Bool) :
    (t.declare (Text.unqualified name) ty (.object isConst)).text =
      (if (t.qualifiers ty (.object isConst)).1 then "const " else "") ++
        t.objectText (Text.unqualified name) ty := by
  have value : (t.qualifiers ty (.object isConst)).2 = false := by
    cases ty with
    | array elem size =>
        rw [qualifiers]
        cases t.arrayForm elem size false <;> rfl
    | _ => rfl
  simp [declare, value, objectText, String.append_assoc]

theorem declare_object_plain (t : Target) (ty : Ty) (name : String) :
    (t.declare (Text.unqualified name) ty (.object false)).text =
      t.objectText (Text.unqualified name) ty := by
  have plain : (t.qualifiers ty (.object false)).1 = false := by
    cases ty with
    | array elem size =>
        rw [qualifiers]
        cases t.arrayForm elem size false <;> rfl
    | _ => rfl
  rw [declare_object, plain]
  simp

end Target

namespace ModuleContext

/-- How the constant is declared, but for `const` and for an initializer. -/
def objectText (ctx : ModuleContext) (c : Constant) : String :=
  ctx.target.objectText (Text.unqualified (ctx.program.symbol c.symbol).name)
    (ctx.program.symbol c.symbol).ty

/-- The strategy under which the constant is registered when `strategy` is chosen for it. -/
def registered (ctx : ModuleContext) (c : Constant) (strategy : Strategy) : Strategy :=
  if strategy = .construct ∧ c.init.any Expr.isAggregate ∧
      ctx.target.isNative (ctx.program.symbol c.symbol).ty = false then .deferred
  else strategy

end ModuleContext

namespace Emission

variable {ctx : ModuleContext} {s u : EmissionState} {c : Constant} {lowered : LoweredConstant}

/-- A constant that leaves statements is registered as deferred, and any other as chosen. -/
theorem isDeferred_iff_registered {strategy : Strategy} {init : Expr} {name : String}
    {portable : Bool} {known : Classification} {texts texts' : DefaultTexts} {i : Initializer}
    (hinit : c.init = some init)
    (hrun : Rendering.initializer strategy (ctx.program.symbol c.symbol).ty init name
      (ctx.scope known portable) texts = (.ok i, texts')) :
    (i.isDeferred = true → ctx.registered c strategy = .deferred) ∧
      (i.isDeferred = false → ctx.registered c strategy = strategy ∧ strategy ≠ .deferred) := by
  have leaves := Rendering.isDeferred_of_initializer hrun
  change i.isDeferred = true ↔ strategy = .deferred ∨ (strategy = .construct ∧
    init.isAggregate ∧ ctx.target.isNative (ctx.program.symbol c.symbol).ty = false) at leaves
  simp only [ModuleContext.registered, hinit, Option.any_some]
  constructor
  · intro hdeferred
    obtain rfl | hleaves := leaves.mp hdeferred
    · exact ite_self _
    · exact if_pos hleaves
  · intro hinline
    rw [hinline, Bool.false_eq_true, false_iff, not_or] at leaves
    exact ⟨if_neg leaves.2, leaves.1⟩

theorem registered_of_declaredConstant {name declaration : String} {strategy : Strategy}
    (hrun : declaredConstant c name (ctx.program.symbol c.symbol).ty strategy declaration ctx s =
      (.ok lowered, u)) :
    u.tables.known = s.tables.known.addGlobal c.symbol (ctx.registered c strategy) := by
  unfold declaredConstant at hrun
  cases hinit : c.init with
  | none =>
      rw [hinit] at hrun
      cases hrun
      simp [ModuleContext.registered, hinit]
  | some init =>
      rw [hinit] at hrun
      obtain ⟨i, t, hi, hrun⟩ := bind_eq_ok.mp hrun
      rw [render, rendering_apply] at hi
      obtain ⟨hresult, rfl⟩ := Prod.mk.inj hi
      have registers := isDeferred_iff_registered hinit (Prod.ext hresult rfl)
      cases i with
      | inline text =>
          cases hrun
          rw [(registers.2 rfl).1]
          rfl
      | deferred statements =>
          cases hrun
          rw [registers.1 rfl]
          rfl

theorem registered_of_constant (hrun : constant c ctx s = (.ok (some lowered), u)) :
    ∃ strategy, ctx.chosenStrategy? s.tables.known c = some strategy ∧
      u.tables.known = s.tables.known.addGlobal c.symbol (ctx.registered c strategy) := by
  unfold constant at hrun
  obtain ⟨ctx', s₁, hread, hrun⟩ := bind_eq_ok.mp hrun
  cases hread
  obtain ⟨k, s₂, hknown, hrun⟩ := bind_eq_ok.mp hrun
  cases hknown
  dsimp only at hrun
  split at hrun
  · cases hrun
  · cases hchosen : ctx.chosenStrategy? s.tables.known c with
    | none =>
        simp only [ModuleContext.chosenStrategy?] at hchosen
        dsimp only [Target.declare] at hrun
        rw [hchosen] at hrun
        cases hrun
    | some strategy =>
        simp only [ModuleContext.chosenStrategy?] at hchosen
        dsimp only [Target.declare] at hrun
        rw [hchosen] at hrun
        dsimp only at hrun
        split at hrun
        · obtain ⟨_, t, -, hdone⟩ := bind_eq_ok.mp hrun
          cases hdone
        · obtain ⟨lowered', t, hlowered, hdone⟩ := bind_eq_ok.mp hrun
          cases hdone
          exact ⟨strategy, rfl, registered_of_declaredConstant hlowered⟩

theorem isDeferred_of_constant (hrun : constant c ctx s = (.ok (some lowered), u)) :
    u.tables.known.isDeferred c.symbol = true ↔ isForced ctx s.tables.known c = true ∨
      (ctx.target.isModern = false ∧
        ctx.target.IsStructOrContainer (ctx.program.symbol c.symbol).ty) ∨
      ((ctx.program.symbol c.symbol).ty = .string ∧ c.init.any Expr.isAggregate = true) := by
  obtain ⟨strategy, hchosen, hknown⟩ := registered_of_constant hrun
  have entered : u.tables.known.isDeferred c.symbol = true ↔
      ctx.registered c strategy = .deferred := by
    simp [Classification.isDeferred, hknown, Classification.addGlobal]
  rw [entered, ← Target.strategy?_eq_deferred_iff]
  unfold ModuleContext.chosenStrategy? at hchosen
  by_cases hforced : isForced ctx s.tables.known c
  · rw [if_pos hforced] at hchosen
    cases hchosen
    simp [hforced, ModuleContext.registered]
  · rw [if_neg hforced] at hchosen
    have leaves : (strategy = .construct ∧ c.init.any Expr.isAggregate ∧
        ctx.target.isNative (ctx.program.symbol c.symbol).ty = false) ↔
        (ctx.program.symbol c.symbol).ty = .string ∧ c.init.any Expr.isAggregate = true := by
      constructor
      · rintro ⟨rfl, haggregate, hnative⟩
        obtain hstring | hnative' := Target.eq_string_or_isNative hchosen
        · exact ⟨hstring, haggregate⟩
        · rw [hnative] at hnative'
          cases hnative'
      · rintro ⟨hstring, haggregate⟩
        rw [hstring] at hchosen ⊢
        cases hchosen
        exact ⟨rfl, haggregate, Target.isNative_string⟩
    rw [← leaves, ModuleContext.registered, hchosen, Option.some.injEq, or_iff_right hforced]
    split
    · exact iff_of_true rfl (.inr ‹_›)
    · exact (or_iff_left ‹_›).symm

theorem line_of_constant (hrun : constant c ctx s = (.ok (some lowered), u)) :
    (u.tables.known.isDeferred c.symbol = true → lowered.line = ctx.objectText c ++ ";") ∧
    (u.tables.known.isDeferred c.symbol = false → lowered.declaration =
      (if (ctx.program.symbol c.symbol).isWritable then "" else "const ") ++ ctx.objectText c) := by
  obtain ⟨strategy, hchosen, hknown⟩ := registered_of_constant hrun
  have entered : u.tables.known.isDeferred c.symbol =
      decide (ctx.registered c strategy = .deferred) := by
    simp [Classification.isDeferred, hknown, Classification.addGlobal]
  have declared (isConst : Bool) : (ctx.declaration c isConst).text =
      (if (ctx.target.qualifiers (ctx.program.symbol c.symbol).ty (.object isConst)).1
        then "const " else "") ++ ctx.objectText c := Target.declare_object ..
  rw [entered, decide_eq_true_eq, decide_eq_false_iff_not]
  cases declaredAs_of_constant hrun with
  | bare hinit =>
      have forced : isForced ctx s.tables.known c = false := by simp [isForced, hinit]
      rw [ModuleContext.chosenStrategy?, forced] at hchosen
      have qualified := Target.qualifiers_object hchosen
        (!(ctx.program.symbol c.symbol).isWritable)
      have same : ctx.registered c strategy = strategy := by
        simp [ModuleContext.registered, hinit]
      rw [same]
      refine ⟨?_, fun h => ?_⟩
      · rintro rfl
        simp [LoweredConstant.line, declared, qualified]
      · rw [declared, qualified]
        cases (ctx.program.symbol c.symbol).isWritable <;> simp [h]
  | @inline init strategy' text texts hinit hchosen' hrendered =>
      obtain rfl : strategy = strategy' := Option.some.inj (hchosen.symm.trans hchosen')
      obtain ⟨same, hother⟩ := (isDeferred_iff_registered hinit hrendered).2 rfl
      refine ⟨fun h => absurd (same ▸ h) hother, fun _ => ?_⟩
      cases hforced : isForced ctx s.tables.known c with
      | true =>
          rw [ModuleContext.chosenStrategy?, if_pos hforced] at hchosen
          exact absurd (Option.some.inj hchosen).symm hother
      | false =>
          rw [ModuleContext.chosenStrategy?, hforced] at hchosen
          rw [declared, Target.qualifiers_object hchosen]
          cases (ctx.program.symbol c.symbol).isWritable <;> simp [hother]
  | @deferred init strategy' statements texts hinit hchosen' hrendered =>
      obtain rfl : strategy = strategy' := Option.some.inj (hchosen.symm.trans hchosen')
      have registered := (isDeferred_iff_registered hinit hrendered).1 rfl
      refine ⟨fun _ => ?_, fun h => absurd registered h⟩
      exact congrArg (· ++ ";") (Target.declare_object_plain ..)

end Emission

/-- A constant that is registered as deferred is declared without `const` and without initializer,
and any other is `const` unless it is writable. -/
structure ModuleContext.WritesConstant (ctx : ModuleContext) (known : Classification) (c : Constant)
    (lowered : LoweredConstant) : Prop where
  symbol : lowered.symbol = c.symbol
  deferred : known.isDeferred c.symbol = true → lowered.line = ctx.objectText c ++ ";"
  other : known.isDeferred c.symbol = false → lowered.declaration =
    (if (ctx.program.symbol c.symbol).isWritable then "" else "const ") ++ ctx.objectText c

/-- The declared constants are written as they are registered in the end. -/
theorem Emission.writesConstant_of_constantList {ctx : ModuleContext} {s u : EmissionState}
    {cs : List Constant} {out : List LoweredConstant} (honce : (cs.map Constant.symbol).Nodup)
    (hrun : constantList cs ctx s = (.ok out, u)) :
    List.Forall₂ (ctx.WritesConstant u.tables.known)
      (cs.filter (ctx.program.declares s.tables.known)) out := by
  induction cs generalizing s out with
  | nil =>
      cases hrun
      exact .nil
  | cons c rest ih =>
      obtain ⟨first, t, others, hfirst, hothers, rfl⟩ := constantList_cons_ok hrun
      rw [List.map_cons, List.nodup_cons] at honce
      have kept := ((literals_frame.within_constant c).done hfirst).1
      have same : ctx.program.declares t.tables.known = ctx.program.declares s.tables.known := by
        funext c
        rw [Program.declares, Program.declares, kept]
      have later := ih honce.2 hothers
      rw [same] at later
      obtain ⟨rfl, homits⟩ | ⟨lowered, rfl, hliteral, hplaceholder, hdeclares⟩ := constant_ok hfirst
      · rw [List.filter_cons_of_neg (by simp [homits.not_declares])]
        exact later
      · have apart : ∀ d ∈ rest, d.symbol ≠ c.symbol :=
          fun d hd heq => honce.1 (heq ▸ List.mem_map_of_mem hd)
        have stays := sameEntry_of_constantList hothers apart
        have registered : u.tables.known.isDeferred c.symbol = t.tables.known.isDeferred c.symbol :=
          by rw [Classification.isDeferred, Classification.isDeferred, stays.strategy]
        obtain ⟨hdeferred, hother⟩ := line_of_constant hfirst
        rw [List.filter_cons_of_pos (by simp [Program.declares, hliteral, hplaceholder])]
        rw [← registered] at hdeferred hother
        exact .cons ⟨hdeclares.symbol, hdeferred, hother⟩ later

end ColorLowering
