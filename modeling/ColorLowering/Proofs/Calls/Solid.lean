import ColorLowering.Proofs.Calls.Nesting
import ColorLowering.Proofs.Reading.Types
import ColorLowering.Proofs.Reading.Values
import ColorLowering.Proofs.Text.Cleaning

/-!
# Solid texts

Literals, names, types and conversions are solid where no identifier holds a bracket, a comma or a
quote, whatever is in a string.
-/
namespace ColorLowering

open Text Nesting

variable {outer cs : List Char} {text other : String}

namespace Text

/-! ### Literals -/

theorem Plain.append (h : Plain text) (h' : Plain other) : Plain (text ++ other) := by
  intro c hc
  rw [String.toList_append, List.mem_append] at hc
  exact hc.elim (h c) (h' c)

theorem step_string {c : Char} (hc : c ≠ '\n' ∧ c ≠ '\r' ∧ c ≠ '"' ∧ c ≠ '\\') :
    step ⟨outer, .quoted⟩ c = some ⟨outer, .quoted⟩ := by
  simp [step, hc]

theorem run_backslash {c : Char} (hc : c ≠ '\n' ∧ c ≠ '\r') :
    run ⟨outer, .quoted⟩ ('\\' :: c :: cs) = run ⟨outer, .quoted⟩ cs := by
  simp [run, step, hc]

theorem run_escape (byte : UInt8) :
    run ⟨outer, .quoted⟩ (Quoted.escape byte) = some ⟨outer, .quoted⟩ := by
  unfold Quoted.escape
  split
  · exact run_backslash (by decide)
  split
  · exact run_backslash (by decide)
  split
  · exact run_backslash (by decide)
  split
  · exact run_backslash (by decide)
  split
  · exact run_backslash (by decide)
  split
  · rename_i hslash hquote _ _ _ hprintable
    have printable : ∀ n < 127, n < 32 ∨ n = 92 ∨ n = 34 ∨ (Char.ofNat n ≠ '\n' ∧
        Char.ofNat n ≠ '\r' ∧ Char.ofNat n ≠ '"' ∧ Char.ofNat n ≠ '\\') := by decide
    have low : 32 ≤ byte.toNat := hprintable.1
    have high : byte.toNat ≤ 126 := hprintable.2
    rcases printable byte.toNat (by omega) with h | h | h | hplain
    · omega
    · exact absurd (UInt8.toNat_inj.mp h) hslash
    · exact absurd (UInt8.toNat_inj.mp h) hquote
    · rw [run_cons, step_string hplain]
      rfl
  · have digit (n : Nat) : step ⟨outer, .quoted⟩ (Quoted.octalDigit n) =
        some ⟨outer, .quoted⟩ := step_string (Cpp.octalDigit_plain n)
    have first := Cpp.octalDigit_plain (byte.toNat / 64)
    rw [Quoted.octal, run_backslash ⟨first.1, first.2.1⟩, run_cons, digit, Option.bind_some,
      run_cons, digit]
    rfl

theorem run_escapes (bytes : List UInt8) :
    run ⟨outer, .quoted⟩ (bytes.flatMap Quoted.escape) = some ⟨outer, .quoted⟩ := by
  induction bytes with
  | nil => rfl
  | cons byte rest ih => rw [List.flatMap_cons, run_append, run_escape, Option.bind_some, ih]

theorem solid_encode (s : String) : Solid (Quoted.encode s) := by
  intro outer
  have opened : step ⟨outer, .code⟩ '"' = some ⟨outer, .quoted⟩ := rfl
  rw [Closed, Quoted.encode, String.toList_ofList, List.cons_append, run_cons, opened,
    Option.bind_some, run_append, run_escapes]
  rfl

def isNumeric (c : Char) : Bool := c.isDigit || c = '.' || c = '-' || c = 'e'

theorem not_mem_marks_of_isNumeric {c : Char} (hc : isNumeric c) : c ∉ marks := by
  intro hmark
  have none : marks.all (!isNumeric ·) := by decide
  have unmarked := List.all_eq_true.mp none c hmark
  rw [hc] at unmarked
  cases unmarked

theorem isNumeric_of_isDigit {c : Char} (hc : c.isDigit) : isNumeric c := by
  simp [isNumeric, hc]

theorem isNumeric_of_mem_toString {i : Int} {c : Char} (hc : c ∈ (toString i).toList) :
    isNumeric c := by
  have digits {n : Nat} (hc : c ∈ (toString n).toList) : isNumeric c := by
    have chars : (toString n).toList = Nat.toDigits 10 n := by simp
    rw [chars] at hc
    exact isNumeric_of_isDigit (Cpp.isDigit_of_mem_toDigits hc)
  cases i with
  | ofNat n => exact digits hc
  | negSucc n =>
      have same : toString (Int.negSucc n) = "-" ++ toString (n + 1) := rfl
      rw [same, String.toList_append, List.mem_append] at hc
      rcases hc with hc | hc
      · obtain rfl := List.mem_singleton.mp hc
        rfl
      · exact digits hc

theorem plain_toString (i : Int) : Plain (toString i) := fun _ hc =>
  not_mem_marks_of_isNumeric (isNumeric_of_mem_toString hc)

theorem isNumeric_of_mem_positional {d : Decimal} {c : Char} (hc : c ∈ d.positional) :
    isNumeric c := by
  have digit (h : c ∈ Nat.toDigits 10 d.digits) : isNumeric c :=
    isNumeric_of_isDigit (Cpp.isDigit_of_mem_toDigits h)
  have zero {n : Nat} (h : c ∈ Decimal.zeros n) : isNumeric c :=
    isNumeric_of_isDigit (Cpp.mem_zeros h)
  unfold Decimal.positional at hc
  dsimp only at hc
  split at hc
  · simp only [List.mem_append, List.mem_cons, List.not_mem_nil, or_false] at hc
    rcases hc with (hc | hc) | rfl | rfl
    · exact digit hc
    · exact zero hc
    · rfl
    · rfl
  · split at hc
    · rw [List.mem_append, List.mem_cons] at hc
      rcases hc with hc | rfl | hc
      · exact digit (List.mem_of_mem_take hc)
      · rfl
      · exact digit (List.mem_of_mem_drop hc)
    · simp only [List.mem_append, List.mem_cons] at hc
      rcases hc with (rfl | rfl | hc) | hc
      · rfl
      · rfl
      · exact zero hc
      · exact digit hc

theorem isNumeric_of_mem_scientific {d : Decimal} {c : Char} (hc : c ∈ d.scientific) :
    isNumeric c := by
  have digit (h : c ∈ Nat.toDigits 10 d.digits) : isNumeric c :=
    isNumeric_of_isDigit (Cpp.isDigit_of_mem_toDigits h)
  unfold Decimal.scientific at hc
  simp only [List.mem_append, List.mem_cons] at hc
  rcases hc with (hc | hc) | rfl | hc
  · exact digit (List.mem_of_mem_take hc)
  · split at hc
    · cases hc
    · rcases List.mem_cons.mp hc with rfl | hc
      · rfl
      · exact digit (List.mem_of_mem_drop hc)
  · rfl
  · exact isNumeric_of_mem_toString hc

theorem plain_finiteText (x : Binary32) : Plain x.finiteText := by
  have unsigned {c : Char} (hc : c ∈ x.unsignedChars) : isNumeric c := by
    unfold Binary32.unsignedChars at hc
    split at hc
    · have digits : ['0', '.', '0'].all isNumeric := by decide
      exact List.all_eq_true.mp digits c hc
    · split at hc
      · exact isNumeric_of_mem_positional hc
      · exact isNumeric_of_mem_scientific hc
  intro c hc
  apply not_mem_marks_of_isNumeric
  rw [Binary32.finiteText, String.toList_ofList] at hc
  split at hc
  · rcases List.mem_cons.mp hc with rfl | hc
    · rfl
    · exact unsigned hc
  · exact unsigned hc

end Text

theorem Value.solid_text (v : Value) : Solid v.text := by
  cases v with
  | bool b => cases b <;> exact Plain.solid (by decide)
  | int i => exact (plain_toString i.toInt).solid
  | uint u => exact (plain_toString (Int.ofNat u.toNat)).solid
  | half x =>
      rw [Value.text, Binary32.halfLiteral]
      split
      · exact Plain.solid (by decide)
      · split
        · split <;> exact Plain.solid (by decide)
        · intro outer
          have half : Plain "half" := by decide
          have same : "half( " ++ x.finiteText ++ " )" = "half" ++ parenthesized x.finiteText := by
            simp [parenthesized, ← String.toList_inj]
          rw [same]
          exact (half.solid outer).append ((plain_finiteText x).solid _).parenthesized
  | float x =>
      rw [Value.text, Binary32.floatLiteral]
      split
      · exact Plain.solid (by decide)
      · split
        · split <;> exact Plain.solid (by decide)
        · exact (plain_finiteText x).solid

theorem Literal.solid_text (l : Literal) : Solid l.text := by
  cases l with
  | scalar v => exact v.solid_text
  | string s => exact solid_encode s

/-! ### Names -/

namespace Text

theorem Plain.unqualified (h : Plain text) : Plain (Text.unqualified text) :=
  fun c hc => h c ((unqualifiesTo_unqualified text).suffix.subset hc)

theorem plain_clean (name : String) : Plain (clean name) := by
  have unmarked : marks.all (!isWordChar ·) := by decide
  intro c hc hmark
  rw [clean, String.toList_ofList] at hc
  have word := isWordChar_of_mem_cleanChars hc
  have absent := List.all_eq_true.mp unmarked c hmark
  rw [word] at absent
  cases absent

end Text

def Program.PlainNames (p : Program) : Prop := ∀ symbol, Plain (p.symbol symbol).name

namespace Scope

variable {s : Scope} {symbol : SymbolId}

theorem plain_qualified (m : ModuleId) {name : String} (hname : Plain name) :
    Plain (s.qualified m name) := by
  unfold qualified
  split
  · exact hname
  · have colons : Plain "::" := by decide
    exact ((plain_clean _).append colons).append hname

theorem plain_resolve (hp : s.program.PlainNames)
    (hliteral : s.known.literals.get? symbol = none) : Plain (s.resolve symbol) := by
  have name := (hp symbol).unqualified
  have function : Plain (s.program.functionName (s.program.symbol symbol)) := by
    unfold Program.functionName
    split
    · split
      · exact plain_clean _
      · exact name
    · exact name
  rw [resolve, hliteral]
  dsimp only
  split
  · unfold functionReference
    split
    · exact plain_qualified _ function
    · have builtin : Plain (builtinNamespace ++ "::") := by decide
      exact builtin.append function
  · unfold variableReference
    dsimp only
    split
    · split
      · exact plain_qualified _ name
      · exact name
    · exact name

end Scope

/-! ### Types and conversions -/

/-- The struct that the type is, or that it is an array of, has no bracket, comma or quote in its
name. -/
def Ty.Plain : Ty → Prop
  | .struct name _ => Text.Plain name
  | .array elem _ => elem.Plain
  | _ => True

namespace Target

theorem plain_scalarSpelling (t : Target) (s : Scalar) : Plain (t.scalarSpelling s) := by
  obtain ⟨dialect, precision, space⟩ := t
  cases s <;> cases precision <;> simp only [scalarSpelling, scalarType, Precision.scalarType] <;>
    decide

theorem solid_cast (t : Target) (wanted given : Ty) (h : Solid text) :
    Solid (t.cast wanted given text) := by
  unfold cast
  split
  · split
    · exact h
    · rename_i w _ _ _ _
      have conversion : Plain (t.conversion w) := by
        cases w with
        | half =>
          rw [conversion]
          decide
        | bool | int | uint | float =>
          have opened : Plain "static_cast<" := by decide
          have closed : Plain ">" := by decide
          exact (opened.append (t.plain_scalarSpelling _)).append closed
      intro outer
      exact (conversion.solid outer).append (h _).parenthesized
  · exact h

variable (t : Target) (ht : Plain t.vectorNamespace)
include ht

theorem plain_native {elem : Ty} {size : Nat} {inContainer : Bool} {spelling : String}
    {shape : NativeShape} (h : t.arrayForm elem size inContainer = .native spelling shape) :
    Plain spelling := by
  obtain ⟨name, hname, rfl⟩ := t.native_spelling h
  have colons : Plain "::" := by decide
  have names : ∀ name ∈ nativeNames, Plain name := by decide
  exact (ht.append colons).append (names name hname)

theorem plain_nativeSpelling {ty : Ty} {spelling : String}
    (h : t.nativeSpelling? ty = some spelling) : Plain spelling := by
  unfold nativeSpelling? at h
  split at h
  · rename_i native shape hform
    obtain rfl := Option.some.inj h
    cases ty with
    | array elem size => exact t.plain_native ht (Option.some.inj hform)
    | _ => cases hform
  · cases h

theorem plain_spell : (ty : Ty) → ty.Plain → Plain (t.spell ty true).base
  | .void, _ => by rw [spell]; decide
  | .scalar s, _ => by rw [spell]; exact t.plain_scalarSpelling s
  | .string, _ => by rw [spell]; decide
  | .struct name _, h => by rw [spell]; exact Text.Plain.unqualified h
  | .array elem size, h => by
      rw [spell]
      split
      · rename_i hform
        exact t.plain_native ht hform
      · rename_i hform
        exact (t.arrayForm_ne_raw elem size _ _ hform).elim
      · rename_i elem' hform
        have opened : Text.Plain "std::vector< " := by decide
        have closed : Text.Plain " >" := by decide
        exact (opened.append (plain_spell elem h)).append closed

end Target
end ColorLowering
