import ColorLowering.Proofs.Constants.Declarations
import ColorLowering.Proofs.Statements.Emitted

/-!
# Locals that are filled in after their declaration

A local is given its first value in its declaration or by a block of statements after it. Where the
dialect has no initializer for its type, the type keeps `const` off the declaration, so that the
block may assign. A string has one, but not for a value that is spelled out leaf by leaf: such a
local is filled in by a block as well, and declared `const` all the same if it is read-only.
-/
namespace ColorLowering

/-- A declaration with the first value of what it declares. -/
def Initializer.writeAfter (declaration : String) (w : Text.Writer) : Initializer → Text.Writer
  | .inline text => w.line (declaration ++ text)
  | .deferred statements =>
    (statements.foldl Text.Writer.line (w.line (declaration ++ ";")).openBrace).closeBrace

namespace Rendering

variable {scope : Scope} {texts texts' : DefaultTexts} {init : Expr} {name : String}

theorem assignment_of_initializer_string {statements : List String}
    (hrun : initializer .construct .string init name scope texts =
      (.ok (.deferred statements), texts')) : ∃ value, statements = [assignment name value] := by
  obtain ⟨scope', texts₁, hread, hrun⟩ := bind_eq_ok.mp hrun
  cases hread
  cases init with
  | aggregate ty leaves =>
      obtain ⟨lines, texts₂, hlines, hdone⟩ := bind_eq_ok.mp hrun
      cases hdone
      obtain ⟨ts, texts₃, -, hlayout⟩ := bind_eq_ok.mp hlines
      obtain ⟨scope', texts₄, hread, hlayout⟩ := bind_eq_ok.mp hlayout
      cases hread
      cases ts with
      | nil => cases hlayout
      | cons value rest =>
          cases hlayout
          exact ⟨value, by simp [Fill.text, AccessPath.text]⟩
  | _ =>
      obtain ⟨text, texts₂, -, hdone⟩ := bind_eq_ok.mp hrun
      cases hdone

end Rendering

namespace Emission

variable {ctx : ModuleContext} {s t : EmissionState} {symbol : SymbolId} {init : Expr}

/-- A local with a first value is its declaration, with the value in it or in a block after it. -/
theorem localVariable_ok (hrun : localVariable symbol (some init) ctx s = (.ok (), t)) :
    ∃ strategy i texts,
      ctx.target.strategy? (ctx.program.symbol symbol).ty = some strategy ∧
      Rendering.initializer strategy (ctx.program.symbol symbol).ty init
        (Text.unqualified (ctx.program.symbol symbol).name) (ctx.scope s.tables.known false)
        s.tables.defaultTexts = (.ok i, texts) ∧
      t = (s.withTexts texts).withBody (i.writeAfter
        (ctx.target.declare (Text.unqualified (ctx.program.symbol symbol).name)
          (ctx.program.symbol symbol).ty (.object !(ctx.program.symbol symbol).isWritable)).text
        s.body) := by
  obtain ⟨ctx', s₁, hread, hrun⟩ := bind_eq_ok.mp hrun
  cases hread
  let object := ctx.program.symbol symbol
  let name := Text.unqualified object.name
  change ∃ strategy i texts,
    (ctx.target.declare name object.ty (.object !object.isWritable)).strategy = some strategy ∧
    Rendering.initializer strategy object.ty init name (ctx.scope s.tables.known false)
      s.tables.defaultTexts = (.ok i, texts) ∧ _
  generalize ctx.target.declare _ _ _ = declaration at hrun ⊢
  obtain ⟨text, strategy?⟩ := declaration
  cases strategy? with
  | none => cases hrun
  | some strategy =>
      obtain ⟨i, u, hi, hrun⟩ := bind_eq_ok.mp hrun
      obtain ⟨texts, hrendered, rfl⟩ := render_ok hi
      refine ⟨strategy, i, texts, rfl, hrendered, ?_⟩
      cases i with
      | inline text =>
          cases hrun
          rfl
      | deferred statements =>
          obtain ⟨_, v, hline, hfill⟩ := bind_eq_ok.mp hrun
          cases hline
          obtain ⟨w, hlines, rfl⟩ := braced_ok hfill
          rw [forM_line_apply] at hlines
          cases hlines
          rfl

/-- How far a local that is not written is kept from being written. One that is initialized in its
declaration is `const` exactly if it is read-only. One that is filled in by a block is `const` only
if it is a read-only string, of either dialect; this is spelled out leaf by leaf, and the block
assigns to it. -/
theorem local_is_const_iff (hrun : localVariable symbol (some init) ctx s = (.ok (), t)) :
    ∃ strategy i texts isConst,
      ctx.target.strategy? (ctx.program.symbol symbol).ty = some strategy ∧
      Rendering.initializer strategy (ctx.program.symbol symbol).ty init
        (Text.unqualified (ctx.program.symbol symbol).name) (ctx.scope s.tables.known false)
        s.tables.defaultTexts = (.ok i, texts) ∧
      t = (s.withTexts texts).withBody (i.writeAfter ((if isConst then "const " else "") ++
        ctx.target.objectText (Text.unqualified (ctx.program.symbol symbol).name)
          (ctx.program.symbol symbol).ty) s.body) ∧
      (isConst = true ↔ (ctx.program.symbol symbol).isWritable = false ∧
        (i.isDeferred = true → (ctx.program.symbol symbol).ty = .string)) ∧
      ∀ statements, i = .deferred statements → isConst = true → init.isAggregate = true ∧
        ∃ value, statements =
          [assignment (Text.unqualified (ctx.program.symbol symbol).name) value] := by
  obtain ⟨strategy, i, texts, hstrategy, hrendered, ht⟩ := localVariable_ok hrun
  have deferred := Rendering.isDeferred_of_initializer hrendered
  change i.isDeferred = true ↔ strategy = .deferred ∨ (strategy = .construct ∧
    init.isAggregate ∧ ctx.target.isNative (ctx.program.symbol symbol).ty = false) at deferred
  -- of the types that a constructor call initializes, only the string is not native
  have string_of_construct : strategy = .construct →
      ctx.target.isNative (ctx.program.symbol symbol).ty = false →
      (ctx.program.symbol symbol).ty = .string := by
    rintro rfl hnative
    refine (Target.eq_string_or_isNative hstrategy).resolve_right ?_
    rw [hnative]
    exact Bool.false_ne_true
  rw [Target.declare_object, Target.qualifiers_object hstrategy] at ht
  refine ⟨strategy, i, texts, _, hstrategy, hrendered, ht, ?_, ?_⟩
  · rw [Bool.and_eq_true, Bool.not_eq_true', decide_eq_true_eq]
    refine and_congr_right fun _ => ⟨fun hnot hblock => ?_, ?_⟩
    · obtain hstrategy | ⟨hconstruct, -, hnative⟩ := deferred.mp hblock
      · exact absurd hstrategy hnot
      · exact string_of_construct hconstruct hnative
    · rintro hstring rfl
      rw [hstring (deferred.mpr (.inl rfl))] at hstrategy
      cases hstrategy
  · rintro statements rfl hconst
    rw [Bool.and_eq_true, decide_eq_true_eq] at hconst
    obtain ⟨hconstruct, haggregate, hnative⟩ := (deferred.mp rfl).resolve_left hconst.2
    rw [string_of_construct hconstruct hnative, hconstruct] at hrendered
    exact ⟨haggregate, Rendering.assignment_of_initializer_string hrendered⟩

def lonelyLocal (dialect : Dialect) (ty : Ty) : ModuleContext :=
  ⟨⟨#[⟨"v", none, .var ty false⟩], #[]⟩, ⟨dialect, .single, "Imath"⟩, ⟨0⟩⟩

def untouched : EmissionState := ⟨.empty, .empty, .empty⟩

def pixel : Ty := .struct "Pixel" [("x", .scalar .int)]

theorem legacy_struct_is_plain : ∃ t texts,
    localVariable ⟨0⟩ (some (.aggregate pixel [.literal (.scalar .int) (.scalar (.int 1))]))
      (lonelyLocal .legacy pixel) untouched = (.ok (), t) ∧
    t = (untouched.withTexts texts).withBody
      ((Initializer.deferred ["v.x = 1;"]).writeAfter "Pixel v" untouched.body) := by
  obtain ⟨t, hrun⟩ : ∃ t, localVariable ⟨0⟩
      (some (.aggregate pixel [.literal (.scalar .int) (.scalar (.int 1))]))
      (lonelyLocal .legacy pixel) untouched = (.ok (), t) := ⟨_, rfl⟩
  obtain ⟨strategy, i, texts, isConst, hstrategy, hrendered, ht, hconst, -⟩ :=
    local_is_const_iff hrun
  cases hstrategy
  cases hrendered
  have plain : isConst = false := by
    rw [← Bool.not_eq_true, hconst]
    rintro ⟨-, hstring⟩
    cases hstring rfl
  exact ⟨t, _, hrun, by rw [ht, plain]; rfl⟩

/-- The block assigns to what was declared `const`. -/
theorem read_only_string_is_assigned : ∃ t,
    localVariable ⟨0⟩ (some (.aggregate .string [.literal .string (.string "abc")]))
      (lonelyLocal .modern .string) untouched = (.ok (), t) ∧
    t.body.text = "const std::string v;\n\x7b\n    v = \"abc\";\n\x7d\n" :=
  ⟨_, rfl, by decide +kernel⟩

end Emission
end ColorLowering
