import ColorLowering.Proofs.Folding.Operators
import ColorLowering.Proofs.Session.Tables

/-!
# Constants are folded exactly

A constant of a whole type may be built from literals, operators and constants of such types that
were surveyed before it. What the survey enters for it is its exact value, if it has one: every
operand converted to the type of its operator, and the result to the type of the constant. A
constant without exact value is a literal all the same, but nothing is folded.
-/
namespace ColorLowering

namespace Program

variable (p : Program)

/-- The constant is listed, and wherever it is, it has the initializer `init`. -/
structure Initializes (symbol : SymbolId) (init : Expr) : Prop where
  listed : ∃ m, ∃ c ∈ (p.module m).constants, c.symbol = symbol
  only : ∀ m, ∀ c ∈ (p.module m).constants, c.symbol = symbol → c.init = some init

inductive Exact : Expr → Int → Prop
  | literal {v : Value} {s : Scalar} {n : Int} : v.Whole s n →
      Exact (.literal (.scalar s) (.scalar v)) n
  | name {symbol : SymbolId} {init : Expr} {s : Scalar} {a n : Int} :
      p.Initializes symbol init → Exact init a → s.number? a = some n →
      Exact (.name (.scalar s) symbol) n
  | unary {s : Scalar} {op : UnaryOp} {operand : Expr} {a b n : Int} : Exact operand a →
      s.number? a = some b → op.number? s b = some n → Exact (.unary (.scalar s) op operand) n
  | binary {ty : Ty} {s : Scalar} {op : BinaryOp} {left right : Expr} {a b a' b' n : Int} :
      Exact left a → Exact right b → s.number? a = some a' → s.number? b = some b' →
      op.number? s a' b' = some n → Exact (.binary ty op (.scalar s) left right) n

/-- The expression has the type `s` and is built from literals, operators and constants of whole
types, all of them among `planned` and each built in this way from those before it. -/
inductive Chained : List Constant → Expr → Scalar → Prop
  | literal {planned : List Constant} {v : Value} {s : Scalar} {n : Int} : v.Whole s n →
      Chained planned (.literal (.scalar s) (.scalar v)) s
  | name {planned before after : List Constant} {c : Constant} {init : Expr} {s t : Scalar} :
      planned = before ++ c :: after → c.init = some init → p.Initializes c.symbol init →
      Chained before init t → (p.symbol c.symbol).ty = .scalar s → s.isWhole →
      Chained planned (.name (.scalar s) c.symbol) s
  | unary {planned : List Constant} {op : UnaryOp} {operand : Expr} {s : Scalar} :
      Chained planned operand s → Chained planned (.unary (.scalar s) op operand) s
  | binary {planned : List Constant} {op : BinaryOp} {left right : Expr} {s t u r : Scalar} :
      Chained planned left t → Chained planned right u → s.isWhole → op.yields s = r →
      Chained planned (.binary (.scalar r) op (.scalar s) left right) r

variable {p}

theorem Initializes.unique {symbol : SymbolId} {init init' : Expr}
    (h : p.Initializes symbol init) (h' : p.Initializes symbol init') : init = init' := by
  obtain ⟨m, c, hc, hsymbol⟩ := h.listed
  exact Option.some.inj ((h.only m c hc hsymbol).symm.trans (h'.only m c hc hsymbol))

theorem Chained.isWhole {planned : List Constant} {e : Expr} {s : Scalar}
    (h : p.Chained planned e s) : s.isWhole := by
  induction h with
  | literal hv => exact hv.isWhole
  | name _ _ _ _ _ hs => exact hs
  | unary _ ih => exact ih
  | @binary _ op _ _ s _ _ _ _ _ hs hr _ _ =>
      subst hr
      cases op <;> first | rfl | exact hs

theorem Chained.render_ok {planned : List Constant} {e : Expr} {s : Scalar}
    (h : p.Chained planned e s) (scope : Scope) (texts : DefaultTexts) :
    ∃ text texts', e.render scope texts = (.ok text, texts') := by
  induction h generalizing texts with
  | literal _ => exact ⟨_, _, rfl⟩
  | name _ _ _ _ _ _ => exact ⟨_, _, rfl⟩
  | unary _ ih =>
      obtain ⟨text, texts', hoperand⟩ := ih texts
      rw [Expr.render]
      exact ⟨_, _, Rendering.bind_eq_ok.mpr ⟨_, _, hoperand, rfl⟩⟩
  | binary _ _ _ _ ihl ihr =>
      obtain ⟨l, texts', hleft⟩ := ihl texts
      obtain ⟨r, texts'', hright⟩ := ihr texts'
      rw [Expr.render]
      exact ⟨_, _, Rendering.bind_eq_ok.mpr ⟨_, _, hleft, Rendering.bind_eq_ok.mpr ⟨_, _, rfl,
        Rendering.bind_eq_ok.mpr ⟨_, _, hright, rfl⟩⟩⟩⟩

theorem Chained.isAggregate {planned : List Constant} {e : Expr} {s : Scalar}
    (h : p.Chained planned e s) : e.isAggregate = false := by
  cases h <;> rfl

end Program

/-- The constant `symbol` of the type `s` is a literal. It is folded exactly when it has an exact
value, to that value, and then its text is the literal of it. -/
structure Classification.FoldsExactly (k : Classification) (p : Program) (symbol : SymbolId)
    (s : Scalar) : Prop where
  isLiteral : k.literals.contains symbol
  folds : ∀ n, p.Exact (.name (.scalar s) symbol) n → ∃ value,
    k.folded.get? symbol = some value ∧ value.Whole s n ∧
      k.literals.get? symbol = some (s.numberText n)
  exact : ∀ value, k.folded.get? symbol = some value →
    ∃ n, p.Exact (.name (.scalar s) symbol) n ∧ value.Whole s n

/-- Every constant of a whole type that can be folded exactly is, if it is a literal at all. -/
def Classification.Sound (k : Classification) (p : Program) : Prop :=
  ∀ symbol init planned s t, p.Initializes symbol init → p.Chained planned init t →
    (p.symbol symbol).ty = .scalar s → s.isWhole → k.literals.contains symbol →
    k.FoldsExactly p symbol s

namespace Program

variable {p : Program}

/-- The value `v`, if there is one, is the exact value of `e`, if there is one. -/
def Evaluates (p : Program) (e : Expr) (s : Scalar) (v : Option Value) : Prop :=
  ∃ exact : Option Int, (∀ n, p.Exact e n ↔ exact = some n) ∧ SameNumber s v exact

theorem exact_unary_iff {s : Scalar} {op : UnaryOp} {operand : Expr} {n : Int} :
    p.Exact (.unary (.scalar s) op operand) n ↔
      ∃ a, p.Exact operand a ∧ ∃ b, s.number? a = some b ∧ op.number? s b = some n := by
  constructor
  · intro h
    cases h with
    | unary ha hb hn => exact ⟨_, ha, _, hb, hn⟩
  · rintro ⟨a, ha, b, hb, hn⟩
    exact .unary ha hb hn

theorem exact_binary_iff {ty : Ty} {s : Scalar} {op : BinaryOp} {left right : Expr} {n : Int} :
    p.Exact (.binary ty op (.scalar s) left right) n ↔
      ∃ a, p.Exact left a ∧ ∃ a', s.number? a = some a' ∧ ∃ b, p.Exact right b ∧
        ∃ b', s.number? b = some b' ∧ op.number? s a' b' = some n := by
  constructor
  · intro h
    cases h with
    | binary ha hb ha' hb' hn => exact ⟨_, ha, _, ha', _, hb, _, hb', hn⟩
  · rintro ⟨a, ha, a', ha', b, hb, b', hb', hn⟩
    exact .binary ha hb ha' hb' hn

theorem exact_name_iff {symbol : SymbolId} {init : Expr} (hinit : p.Initializes symbol init)
    {s : Scalar} {n : Int} :
    p.Exact (.name (.scalar s) symbol) n ↔ ∃ a, p.Exact init a ∧ s.number? a = some n := by
  constructor
  · intro h
    cases h with
    | name hinit' ha hn =>
        obtain rfl := hinit.unique hinit'
        exact ⟨_, ha, hn⟩
  · rintro ⟨a, ha, hn⟩
    exact .name hinit ha hn

/-- The value of a chained expression is exact where those of its constants are. -/
theorem Chained.evaluates {planned : List Constant} {e : Expr} {s : Scalar} {k : Classification}
    (h : p.Chained planned e s) (precision : Precision) (hk : k.Sound p)
    (hliteral : e.isLiteral k.literals) : p.Evaluates e s (e.value? precision k.folded) := by
  induction h with
  | @literal _ v s n hv =>
      refine ⟨some n, fun n' => ⟨?_, ?_⟩, .some hv⟩
      · intro h
        cases h with
        | literal hv' => rw [hv.unique hv']
      · intro h
        cases h
        exact .literal hv
  | @name _ _ _ c init s t _ _ hinit hchain hty hs _ =>
      have known := hk c.symbol init _ s t hinit hchain hty hs hliteral
      rw [Expr.value?]
      cases hfolded : k.folded.get? c.symbol with
      | none =>
          refine ⟨none, fun n => ⟨fun hn => ?_, fun h => by cases h⟩, .none⟩
          obtain ⟨value, hvalue, -, -⟩ := known.folds n hn
          rw [hfolded] at hvalue
          cases hvalue
      | some value =>
          obtain ⟨n, hn, hwhole⟩ := known.exact value hfolded
          refine ⟨some n, fun n' => ⟨fun hn' => ?_, ?_⟩, .some hwhole⟩
          · obtain ⟨value', hvalue', hwhole', -⟩ := known.folds n' hn'
            rw [hfolded] at hvalue'
            cases hvalue'
            rw [hwhole.unique hwhole']
          · rintro ⟨⟩
            exact hn
  | @unary _ op operand s hchain ih =>
      obtain ⟨exact, hexact, hsame⟩ := ih hliteral
      refine ⟨exact.bind fun a => (s.number? a).bind (op.number? s), fun n => ?_, ?_⟩
      · simp only [exact_unary_iff, hexact, Option.bind_eq_some_iff]
      · refine hsame.bind fun v a hv => ?_
        exact (hv.convert? precision hchain.isWhole).bind fun w b hw => hw.unary? op
  | @binary _ op left right s _ _ _ _ _ hs hr ihl ihr =>
      subst hr
      rw [Expr.isLiteral, Bool.and_eq_true] at hliteral
      obtain ⟨exactLeft, hleft, hsameLeft⟩ := ihl hliteral.1
      obtain ⟨exactRight, hright, hsameRight⟩ := ihr hliteral.2
      refine ⟨exactLeft.bind fun a => (s.number? a).bind fun a' => exactRight.bind fun b =>
        (s.number? b).bind fun b' => op.number? s a' b', fun n => ?_, ?_⟩
      · simp only [exact_binary_iff, hleft, hright, Option.bind_eq_some_iff]
      · refine hsameLeft.bind fun v a hv => (hv.convert? precision hs).bind fun v' a' hv' => ?_
        refine hsameRight.bind fun w b hw => (hw.convert? precision hs).bind fun w' b' hw' => ?_
        exact (hv'.binary? hw' precision op).convertBack precision

end Program

end ColorLowering
