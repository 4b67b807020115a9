import ColorLowering.Proofs.Reading.Entered
import ColorLowering.Proofs.Session.Midway

/-!
# Expressions in any state of a session

Whatever was lowered before, and however far a module has come, the text of a legible expression
reads as the tree of the expression, as long as the namespaces of the modules read as names. What
belongs to a module that is called by a reserved word cannot be read elsewhere.
-/
namespace ColorLowering
namespace Session

open Cpp

section
variable {p : Program} {target : Target} (ht : isIdentifier target.vectorNamespace.toList)
  (hp : p.Legible) (hnamespaces : p.ReadableNamespaces)
include ht hp hnamespaces

theorem Midway.readable {m : ModuleId} {s : EmissionState}
    (hs : Midway p target m (Expr.Legible p) s) : s.tables.Readable p := by
  have legible (m : ModuleId) : (⟨p, target, m⟩ : ModuleContext).Legible := ⟨ht, hnamespaces, hp⟩
  refine hs.textInvariant (I := fun tables => tables.Readable p)
    (fun m => Emission.textInvariant_readable (legible m)) (Tables.readable_empty p) ?_
  intro portable e result s t he readable hrun
  have scope := (legible m).scope readable.known portable
  obtain ⟨hlater, -⟩ := Rendering.parallel_render scope e he s.tables.defaultTexts readable.texts
  rw [Emission.rendering_apply] at hrun
  obtain ⟨-, rfl⟩ := Prod.mk.inj hrun
  exact ⟨readable.known, hlater⟩

/-- In whatever state an expression is rendered, its text reads as its tree: by the precedence of
the operators of C++ nothing in it groups otherwise, and nothing that is put into it takes part in
what stands around it. -/
theorem expressions_read_back {m : ModuleId} {s : EmissionState}
    (hs : Midway p target m (Expr.Legible p) s) (portable : Bool) {e : Expr} (he : e.Legible p) {text : String} {texts : DefaultTexts}
    (hrun : e.render ⟨p, target, m, s.tables.known, portable⟩ s.tables.defaultTexts =
      (.ok text, texts)) :
    ∃ tree, e.tree ⟨p, target, m, s.tables.known, portable⟩ s.tables.defaultTexts =
        (.ok tree, texts) ∧
      Cpp.read text = some tree := by
  have readable := hs.readable ht hp hnamespaces
  have legible : (⟨p, target, m⟩ : ModuleContext).Legible := ⟨ht, hnamespaces, hp⟩
  obtain ⟨-, hends⟩ := Rendering.parallel_render (legible.scope readable.known portable) e he
    s.tables.defaultTexts readable.texts
  obtain ⟨tree, htree, hshown⟩ := hends text texts hrun
  exact ⟨tree, htree, hshown.1.read⟩

end

def summingProgram : Program where
  symbols := #[⟨"k", some ⟨0⟩, .var (.scalar .int) false⟩,
    ⟨"a", none, .var (.array (.scalar .int) 6) true⟩,
    ⟨"f", some ⟨0⟩, .fn [⟨"p", .scalar .int, .read⟩, ⟨"q", .scalar .int, .read⟩]
      (.scalar .float)⟩]
  modules := #[⟨"m", "", [], [⟨⟨0⟩, some (.literal (.scalar .int) (.scalar (.int (-3))))⟩],
    [⟨⟨2⟩, []⟩]⟩]

def summing : Expr :=
  .binary (.scalar .float) .add (.scalar .float)
    (.unary (.scalar .int) .neg (.name (.scalar .int) ⟨0⟩))
    (.call (.scalar .float) (.function ⟨2⟩ [.required "p" (.scalar .int),
        .optional "q" (.scalar .int) ⟨0⟩ (.literal (.scalar .int) (.scalar (.int (-1))))])
      [.index (.scalar .int) (.name (.array (.scalar .int) 6) ⟨1⟩)
        (.literal (.scalar .int) (.scalar (.int 2)))])

theorem eq_of_mem_constants_summingProgram {m : ModuleId} {c : Constant}
    (hc : c ∈ (summingProgram.module m).constants) :
    c = ⟨⟨0⟩, some (.literal (.scalar .int) (.scalar (.int (-3))))⟩ := by
  revert hc
  obtain ⟨_ | n⟩ := m <;> simp [summingProgram, Program.module]

theorem legible_summingProgram : summingProgram.Legible := by
  have bodies : ∀ m, ∀ f ∈ (summingProgram.module m).functions, f.body = [] := by
    rintro ⟨_ | n⟩ <;> simp [summingProgram, Program.module]
  constructor
  · intro m c hc
    rw [eq_of_mem_constants_summingProgram hc]
    rfl
  · rintro m portable e (⟨hc, hinit⟩ | ⟨hf, he⟩)
    · rw [eq_of_mem_constants_summingProgram hc] at hinit
      cases hinit
      rw [Expr.Legible]
      trivial
    · rw [bodies m _ hf] at he
      cases he
  · intro m c hc init hinit haggregate
    rw [eq_of_mem_constants_summingProgram hc] at hinit
    cases hinit
    cases haggregate

theorem readableNamespaces_summingProgram : summingProgram.ReadableNamespaces := by
  have owner : ∀ id m, (summingProgram.symbol id).module = some m → m = ⟨0⟩ := by
    rintro ⟨_ | _ | _ | n⟩ m <;> simp [summingProgram, Program.symbol, Program.anonymous, eq_comm]
  constructor
  · intro id m h
    rw [owner id m h]
    decide
  · intro id m h
    rw [owner id m h]
    rintro ⟨hstd, -⟩
    exact absurd hstd (by decide)

theorem legible_summing : summing.Legible summingProgram := by
  have declared : ¬summingProgram.Literal ⟨1⟩ := by
    intro hliteral
    generalize hsymbol : (⟨1⟩ : SymbolId) = symbol at hliteral
    obtain ⟨hc, -, -, -, -⟩ := hliteral
    rw [eq_of_mem_constants_summingProgram hc] at hsymbol
    cases hsymbol
  simp only [summing, Expr.Legible, Expr.AllLegible, Expr.SlotsLegible, Expr.IsBase]
  refine ⟨?_, ?_, ?_, ⟨⟨declared, ?_, trivial⟩, trivial⟩, trivial, trivial⟩ <;> decide

theorem sum_read_back :
    Cpp.read "(static_cast<float>( -(-3) ) + f( a[2], -1 ))" = some (.binary .add
      (.cast [.keyword "float".toList] (.unary .neg (.unary .neg (.literal ['3']))))
      (.apply (.name [['f']]) [.index (.name [['a']]) (.literal ['2']),
        .unary .neg (.literal ['1'])])) := by
  have vectors : isIdentifier Target.standard.vectorNamespace.toList := by decide
  have lowered : Midway summingProgram .standard ⟨0⟩ (Expr.Legible summingProgram)
      ((new .standard).after summingProgram [.all]).emissionState := .start [.all]
  obtain ⟨tree, htree, hread⟩ := expressions_read_back vectors legible_summingProgram
    readableNamespaces_summingProgram lowered false legible_summing rfl
  cases htree
  exact hread

def defaultProgram : Program where
  symbols := #[⟨"f", some ⟨0⟩, .fn [] .void⟩, ⟨"g", some ⟨1⟩, .fn [] .void⟩]
  modules := #[⟨"default", "", [], [], [⟨⟨0⟩, []⟩]⟩,
    ⟨"m", "", [], [], [⟨⟨1⟩, [.eval (.call .void (.function ⟨0⟩ []) [])]⟩]⟩]

/-- A function of the module `default` is called from another under a name that is none. -/
theorem reserved_namespace_not_read : defaultProgram.Legible ∧
    Midway defaultProgram .standard ⟨1⟩ (Expr.Legible defaultProgram)
      ((new .standard).after defaultProgram [.module ⟨0⟩]).emissionState ∧
    (Expr.call .void (.function ⟨0⟩ []) []).Legible defaultProgram ∧
    (let s := ((new .standard).after defaultProgram [.module ⟨0⟩]).emissionState
    ((Expr.call .void (.function ⟨0⟩ []) []).render
      ⟨defaultProgram, .standard, ⟨1⟩, s.tables.known, false⟩ s.tables.defaultTexts).1 =
        .ok "default::f()") ∧
    Cpp.read "default::f()" = none := by
  have expression : (Expr.call .void (.function ⟨0⟩ []) []).Legible defaultProgram := by
    simp only [Expr.Legible, Expr.AllLegible, Expr.SlotsLegible]
    refine ⟨?_, ?_, trivial, trivial⟩ <;> decide
  have constants : ∀ m, (defaultProgram.module m).constants = [] := by
    rintro ⟨_ | _ | n⟩ <;> rfl
  have bodies : ∀ m, ∀ f ∈ (defaultProgram.module m).functions, ∀ e ∈ Stmt.exprsAll f.body,
      e = .call .void (.function ⟨0⟩ []) [] := by
    rintro ⟨_ | _ | n⟩ <;> simp [defaultProgram, Program.module, Stmt.exprsAll, Stmt.exprs]
  refine ⟨⟨?_, ?_, ?_⟩, .start _, expression, rfl, rfl⟩
  · intro m c hc
    rw [constants m] at hc
    cases hc
  · rintro m portable e (⟨hc, -⟩ | ⟨hf, he⟩)
    · rw [constants m] at hc
      cases hc
    · rw [bodies m _ hf e he]
      exact expression
  · intro m c hc
    rw [constants m] at hc
    cases hc

end Session
end ColorLowering
