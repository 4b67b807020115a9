import ColorLowering.Proofs.Calls.Arguments
import ColorLowering.Proofs.Constants.Substitution
import ColorLowering.Proofs.Folding.Surveyed
import ColorLowering.Proofs.Statements.Assignments

/-!
# Variables that are written through their literals

An assignment and an argument are written with whatever stands for the variable. That is its name
unless the survey has substituted it, which it does with every variable of a literal initializer,
those that may be written included.
-/
namespace ColorLowering

/-- The text is the name of the symbol, bare or with the namespace of its module. -/
def Program.Names (p : Program) (symbol : SymbolId) (text : String) : Prop :=
  text = Text.unqualified (p.symbol symbol).name ∨ ∃ m, (p.symbol symbol).module = some m ∧
    text = p.namespaceOf m ++ "::" ++ Text.unqualified (p.symbol symbol).name

/-- The text is the literal of a constant that is substituted, or the name of any other variable. -/
def Program.StandsFor (p : Program) (known : Classification) (planned : List Constant)
    (symbol : SymbolId) (text : String) : Prop :=
  (Substituted planned symbol ∧ known.literals.get? symbol = some text) ∨
    (¬Substituted planned symbol ∧ known.literals.get? symbol = none ∧ p.Names symbol text)

theorem Scope.resolve_standsFor {s : Scope} {planned : List Constant} {symbol : SymbolId}
    (hknown : s.known.Substitutes planned)
    (hvariable : (s.program.symbol symbol).isFunction = false) :
    s.program.StandsFor s.known planned symbol (s.resolve symbol) := by
  unfold resolve
  cases hliteral : s.known.literals.get? symbol with
  | some text =>
      exact .inl ⟨(hknown symbol).mp (Table.contains_iff.mpr ⟨text, hliteral⟩), hliteral⟩
  | none =>
      refine .inr ⟨fun h => ?_, hliteral, ?_⟩
      · obtain ⟨text, htext⟩ := Table.contains_iff.mp ((hknown symbol).mpr h)
        rw [hliteral] at htext
        cases htext
      · simp only [hvariable, Bool.false_eq_true, if_false, variableReference, qualified]
        split
        · rename_i m hm
          split
          · split
            · exact .inl rfl
            · exact .inr ⟨m, hm, rfl⟩
          · exact .inl rfl
        · exact .inl rfl

/-- An argument that is a name is the text of the name, converted to the type of its parameter. -/
theorem Rendering.named_argument {s : Scope} {texts last : DefaultTexts} {ty : Ty}
    {function : SymbolId} {params : List Param} {slots : List Slot} {args : List Expr}
    {text : String} (hcall : s.program.CallFits function params slots)
    (hrun : (Expr.call ty (.function function slots) args).render s texts = (.ok text, last)) :
    ∃ ts, text = callText (s.resolve function) ts ∧
      ∀ (i : Nat) (param : Param) (given : Ty) (symbol : SymbolId), params[i]? = some param →
        args[i]? = some (Expr.name given symbol) →
        ts[i]? = some (s.target.cast param.ty given (s.resolve symbol)) := by
  have lengths := hcall.slots.length_eq
  have fits : args.length ≤ slots.length := by
    by_contra hlt
    rw [render_call_of_lt ty (Nat.lt_of_not_le hlt)] at hrun
    cases hrun
  rw [render_call_of_le ty hcall.slots fits] at hrun
  obtain ⟨ts, middle, hts, hdone⟩ := bind_eq_ok.mp hrun
  cases hdone
  obtain ⟨ts', last', hruns, heq⟩ | ⟨_, _, _, _, _, _, _, _, _, _, heq⟩ := sequence_cases
    (callPlaces (s.resolve function) params slots args) s texts
  · rw [heq] at hts
    cases hts
    refine ⟨ts, rfl, fun i param given symbol hparam harg => ?_⟩
    have hi : i < slots.length := lengths ▸ (List.getElem?_eq_some_iff.mp hparam).1
    obtain ⟨text, _, _, hplace, htext⟩ := hruns.getElem? (getElem?_callPlaces hparam
      (List.getElem?_eq_getElem hi))
    rw [harg] at hplace
    cases hplace
    exact htext
  · rw [heq] at hts
    cases hts

/-- While the module of the context is lowered from the state `s`, a constant or the functions are
to be written when this much is known. -/
def Emission.WritesWith (ctx : ModuleContext) (s : EmissionState) (known : Classification) : Prop :=
  ∃ before after start t lowered, (ctx.program.module ctx.module).constants = before ++ after ∧
    Emission.heading (ctx.program.module ctx.module) ctx s = (.ok (), start) ∧
    Emission.constantList before ctx start = (.ok lowered, t) ∧ known = t.tables.known

namespace Session

variable {p : Program} {target : Target} {done : List ModuleId} {s s' : Session} {n : ModuleId}

theorem Reached.substitutes (hs : Reached p target done s) :
    s.tables.known.Substitutes (constantsOf p done) :=
  hs.tables_of (P := fun done tables => tables.known.Substitutes (constantsOf p done))
    (fun _ => iff_of_false Bool.false_ne_true not_substituted_nil) fun before hrun => by
      obtain ⟨start, t, lowered, hheading, hlist, -, hknown⟩ := Emission.module_runs hrun
      rw [hknown, constantsOf, List.flatMap_append, List.flatMap_singleton]
      exact Emission.substitutes_of_constantList hheading hlist before

/-- When a module writes a constant or a function, its survey has decided what is substituted. -/
theorem Reached.substitutes_of_writesWith (hs : Reached p target done s) {known : Classification}
    (hknown : Emission.WritesWith ⟨p, target, n⟩ s.emissionState known) :
    known.Substitutes (constantsOf p (done ++ [n])) := by
  obtain ⟨before, after, start, t, lowered, -, hheading, hlist, rfl⟩ := hknown
  have all := Emission.substitutes_of_constantList hheading hlist hs.substitutes
  rwa [constantsOf, List.flatMap_append, List.flatMap_singleton]

/-- Once a module is lowered, the literals are the variables that are substituted, and every
assignment of the module and every argument is written with the literal of such a variable or with
the name of any other. -/
theorem variables_named_unless_substituted (hs : Reached p target done s)
    (hrun : (lowerModule p n).run s = (.ok (), s')) :
    let ctx : ModuleContext := ⟨p, target, n⟩
    let planned := constantsOf p (done ++ [n])
    (∀ symbol, s'.tables.known.literals.contains symbol = true ↔ Substituted planned symbol) ∧
    (∃ lines, s.body.Adds s'.body lines ∧
      List.Forall₂ (fun a line => ∀ ty symbol, a.1 = Expr.name ty symbol →
          (p.symbol symbol).isFunction = false → ∃ text level value,
            p.StandsFor s'.tables.known planned symbol text ∧
            line = Text.Writer.indentLines level (assignment text value))
        ((p.module n).functions.flatMap fun f => Stmt.assignmentsAll f.body) lines) ∧
    ∀ known, Emission.WritesWith ctx s.emissionState known →
      ∀ (portable : Bool) (ty : Ty) (function : SymbolId) (params : List Param) (slots : List Slot)
        (args : List Expr) (texts last : DefaultTexts) (text : String),
        p.CallFits function params slots →
        (Expr.call ty (.function function slots) args).render (ctx.scope known portable) texts =
          (.ok text, last) →
        ∃ ts, text = callText ((ctx.scope known portable).resolve function) ts ∧
          ∀ (i : Nat) (param : Param) (given : Ty) (symbol : SymbolId), params[i]? = some param →
            args[i]? = some (Expr.name given symbol) → (p.symbol symbol).isFunction = false →
            ∃ text, p.StandsFor known planned symbol text ∧
              ts[i]? = some (target.cast param.ty given text) := by
  intro ctx planned
  have literals := (hs.lowered hrun).substitutes
  refine ⟨literals, ?_, ?_⟩
  · obtain ⟨out, -, hout, rfl⟩ | ⟨_, _, hfailed, -, -⟩ := lowerModule_cases hrun
    · rw [hs.target_eq] at hout
      obtain ⟨lines, hlines, hadds⟩ := Emission.assignments_of_module hout
      refine ⟨lines, hadds, hlines.imp ?_⟩
      rintro ⟨_, value⟩ line ⟨level, left, right, texts, texts', texts'', hleft, -, rfl⟩
      rintro ty symbol rfl hvariable
      cases hleft
      exact ⟨_, level, right, Scope.resolve_standsFor (s := ctx.scope out.tables.known false)
        literals hvariable, rfl⟩
    · cases hfailed
  · intro known hknown portable ty function params slots args texts last text hcall hrendered
    have substitutes := hs.substitutes_of_writesWith hknown
    obtain ⟨ts, htext, hts⟩ := Rendering.named_argument (s := ctx.scope known portable) hcall
      hrendered
    refine ⟨ts, htext, fun i param given symbol hparam harg hvariable => ?_⟩
    exact ⟨_, Scope.resolve_standsFor (s := ctx.scope known portable) substitutes hvariable,
      hts i param given symbol hparam harg⟩

def three : Expr := .literal (.scalar .int) (.scalar (.int 3))

def five : Expr := .literal (.scalar .int) (.scalar (.int 5))

/-- A function assigns to the variable `x` and hands it over to be written. Another gives 5. -/
def writingProgram (init : Expr) : Program where
  symbols := #[⟨"x", some ⟨0⟩, .var (.scalar .int) true⟩,
    ⟨"put", some ⟨0⟩, .fn [⟨"y", .scalar .int, .write⟩] .void⟩, ⟨"f", some ⟨0⟩, .fn [] .void⟩,
    ⟨"g", some ⟨0⟩, .fn [] (.scalar .int)⟩]
  modules := #[⟨"m", "m.ctl", [], [⟨⟨0⟩, some init⟩],
    [⟨⟨1⟩, []⟩,
      ⟨⟨2⟩, [.assign (.name (.scalar .int) ⟨0⟩) five,
        .eval (.call .void (.function ⟨1⟩ [.required "y" (.scalar .int)])
          [.name (.scalar .int) ⟨0⟩])]⟩,
      ⟨⟨3⟩, [.ret (some five)]⟩]⟩]

def fromCall : Expr := .call (.scalar .int) (.function ⟨3⟩ []) []

/-- A variable that a call initializes keeps its name. -/
theorem called_variable_named : ∃ s',
    (lowerModule (writingProgram fromCall) ⟨0⟩).run (new .standard) = (.ok (), s') ∧
      ¬Substituted [⟨⟨0⟩, some fromCall⟩] ⟨0⟩ ∧ ∃ text level value,
        (writingProgram fromCall).Names ⟨0⟩ text ∧ (new .standard).body.Adds s'.body
          [Text.Writer.indentLines level (assignment text value)] := by
  obtain ⟨s', hrun⟩ : ∃ s', (lowerModule (writingProgram fromCall) ⟨0⟩).run (new .standard) =
      (.ok (), s') := ⟨_, eq_ok_of_fst (by decide +kernel)⟩
  have kept : ¬Substituted [⟨⟨0⟩, some fromCall⟩] ⟨0⟩ := by
    rw [← List.nil_append [_], substituted_concat]
    rintro (h | ⟨-, init, hinit, -, hbuilt⟩)
    · exact not_substituted_nil h
    · cases hinit
      cases hbuilt
  obtain ⟨-, ⟨lines, hadds, hlines⟩, -⟩ := variables_named_unless_substituted .new hrun
  refine ⟨s', hrun, kept, ?_⟩
  have assigned : ((writingProgram fromCall).module ⟨0⟩).functions.flatMap
      (fun f => Stmt.assignmentsAll f.body) = [(.name (.scalar .int) ⟨0⟩, five)] := rfl
  rw [assigned] at hlines
  obtain ⟨line, _, hline, hnone, rfl⟩ := List.forall₂_cons_left_iff.mp hlines
  cases hnone
  obtain ⟨text, level, value, ⟨hsubstituted, -⟩ | ⟨-, -, hnames⟩, rfl⟩ :=
    hline (.scalar .int) ⟨0⟩ rfl rfl
  · exact (kept hsubstituted).elim
  · exact ⟨text, level, value, hnames, hadds⟩

/-- A variable with a literal for its initializer is assigned to, and handed over, as that. -/
theorem literal_assigned : ∃ s',
    (lowerModule (writingProgram three) ⟨0⟩).run (new .standard) = (.ok (), s') ∧
      ((writingProgram three).symbol ⟨0⟩).isWritable = true ∧
      s'.tables.known.literals.get? ⟨0⟩ = some "3" ∧
      (s'.body.pieces.toList.drop 13).take 2 = ["    3 = 5;\n", "    put( 3 );\n"] :=
  ⟨((lowerModule (writingProgram three) ⟨0⟩).run (new .standard)).2, Prod.ext rfl rfl, rfl, rfl,
    rfl⟩

end Session
end ColorLowering
