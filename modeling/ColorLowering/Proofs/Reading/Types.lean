import ColorLowering.Proofs.Reading.Layout
import ColorLowering.Proofs.Reading.Names

/-!
# Types within expressions

A type is written between the brackets of a conversion or of a container, and before the arguments
or the list of a value. Whatever its nesting, it reads as its own tokens.
-/
namespace ColorLowering

open Cpp

/-- The struct that the type is, or that it is an array of, is called by an identifier. -/
def Ty.Named : Ty → Prop
  | .struct name _ => isIdentifier name.toList
  | .array elem _ => elem.Named
  | _ => True

def Target.scalarTokens (t : Target) : Scalar → List Cpp.Token
  | .bool => [.keyword "bool".toList]
  | .int => [.keyword "int".toList]
  | .uint => [.keyword "unsigned".toList, .keyword "int".toList]
  | .half => [.identifier "half".toList]
  | .float => [.keyword t.scalarType.toList]

/-- The native types of the vector library, for each precision and for whole numbers. -/
def nativeNames : List String :=
  ["V2f", "V3f", "V4f", "V2d", "V3d", "V4d", "V2i", "V3i", "V4i", "M33f", "M44f", "M33d", "M44d"]

/-- The names of native types are those of the vector library. -/
theorem Target.native_spelling (t : Target) {elem : Ty} {size : Nat} {inContainer : Bool}
    {spelling : String} {shape : NativeShape}
    (h : t.arrayForm elem size inContainer = .native spelling shape) :
    ∃ name ∈ nativeNames, spelling = t.vectorNamespace ++ "::" ++ name := by
  obtain ⟨dialect, precision, space⟩ := t
  have flat {vector scalar : String} {elem : Ty}
      (h : flatArrayForm vector scalar elem size inContainer = .native spelling shape) :
      (size = 2 ∨ size = 3 ∨ size = 4) ∧ vector = spelling := by
    unfold flatArrayForm at h
    split at h
    · exact ⟨by omega, (ArrayForm.native.inj h).1⟩
    · split at h <;> cases h
  unfold arrayForm at h
  split at h
  · obtain ⟨hsize, rfl⟩ := flat h
    refine ⟨"V" ++ toString size ++ precision.nativeSuffix, ?_, String.toList_inj.mp ?_⟩
    · rcases hsize with rfl | rfl | rfl <;> cases precision <;> decide
    · simp [floatVector]
  · obtain ⟨hsize, rfl⟩ := flat h
    refine ⟨"V" ++ toString size ++ "i", ?_, String.toList_inj.mp ?_⟩
    · rcases hsize with rfl | rfl | rfl <;> decide
    · simp [intVector]
  · split at h
    · rename_i hsize
      obtain rfl := (ArrayForm.native.inj h).1
      refine ⟨"M" ++ toString size ++ toString size ++ precision.nativeSuffix, ?_,
        String.toList_inj.mp ?_⟩
      · rcases hsize.2 with rfl | rfl <;> cases precision <;> decide
      · simp [matrix]
    · cases h
  · cases h

theorem Target.native_anywhere (t : Target) {elem : Ty} {size : Nat} {inContainer : Bool}
    {spelling : String} {shape : NativeShape}
    (h : t.arrayForm elem size inContainer = .native spelling shape) (inContainer' : Bool) :
    t.arrayForm elem size inContainer' = .native spelling shape := by
  have flat {vector scalar : String} {elem : Ty}
      (h : flatArrayForm vector scalar elem size inContainer = .native spelling shape) :
      flatArrayForm vector scalar elem size inContainer' = .native spelling shape := by
    unfold flatArrayForm at h ⊢
    split at h
    · rwa [if_pos ‹_›]
    · split at h <;> cases h
  unfold arrayForm at h ⊢
  split at h
  · exact flat h
  · exact flat h
  · exact h
  · cases h

theorem Target.spelling_of_native (t : Target) {ty : Ty} {spelling : String}
    (h : t.nativeSpelling? ty = some spelling) : t.spelling ty = spelling := by
  unfold nativeSpelling? at h
  split at h
  · rename_i native shape hform
    obtain rfl := Option.some.inj h
    cases ty with
    | array elem size =>
        have inside := t.native_anywhere (Option.some.inj hform) true
        rw [Target.spelling, spell, inside]
    | _ => cases hform
  · cases h

theorem Target.arrayForm_ne_raw (t : Target) (elem : Ty) (size : Nat) (scalar : String)
    (size' : Nat) : t.arrayForm elem size true ≠ .raw scalar size' := by
  have flat (vector scalar' : String) (elem : Ty) :
      Target.flatArrayForm vector scalar' elem size true ≠ .raw scalar size' := by
    unfold Target.flatArrayForm
    split
    · simp
    · simp
  unfold Target.arrayForm
  split
  · exact flat _ _ _
  · exact flat _ _ _
  · split <;> simp
  · simp

namespace Cpp

/-- The tokens are a type, or a part of one, within brackets. -/
def ReadsType (ts : List Token) : Prop := ∀ stack isCast depth ty,
  Reader.run ⟨stack, .type isCast depth ty⟩ ts = some ⟨stack, .type isCast depth (ty ++ ts)⟩

section
variable {ts us : List Token}

theorem ReadsType.identifier (cs : List Char) : ReadsType [.identifier cs] := fun _ _ _ _ => rfl

theorem ReadsType.keyword (cs : List Char) : ReadsType [.keyword cs] := fun _ _ _ _ => rfl

theorem ReadsType.qualifier : ReadsType [.sign .qualifier] := fun _ _ _ _ => rfl

theorem ReadsType.append (h : ReadsType ts) (h' : ReadsType us) : ReadsType (ts ++ us) := by
  intro stack isCast depth ty
  rw [Reader.run_append_of_run (h ..), h', List.append_assoc]

theorem ReadsType.qualified (space cs : List Char) :
    ReadsType [.identifier space, .sign .qualifier, .identifier cs] :=
  ((identifier space).append qualifier).append (identifier cs)

theorem ReadsType.angled (h : ReadsType ts) :
    ReadsType (.sign (.operator .lt) :: (ts ++ [Token.sign (.operator .gt)])) := by
  intro stack isCast depth ty
  have opened : Reader.run ⟨stack, .type isCast depth ty⟩ [.sign (.operator .lt)] =
      some ⟨stack, .type isCast (depth + 1) (ty ++ [Token.sign (.operator .lt)])⟩ := rfl
  have closed (ty' : List Token) :
      Reader.run ⟨stack, .type isCast (depth + 1) ty'⟩ [.sign (.operator .gt)] =
        some ⟨stack, .type isCast depth (ty' ++ [Token.sign (.operator .gt)])⟩ := rfl
  rw [List.append_cons ty, ← List.append_assoc, ← List.singleton_append,
    Reader.run_append_of_run opened, Reader.run_append_of_run (h ..), closed]

end

structure SpellsType (text : String) (ts : List Token) : Prop where
  lexed : lex text.toList = some ts
  reads : ReadsType ts

theorem SpellsType.of_identifier {w : String} (hw : isIdentifier w.toList) :
    SpellsType w [.identifier w.toList] :=
  ⟨by rw [lex_word (isWord_of_isIdentifier hw), ofName_of_isIdentifier hw], .identifier _⟩

theorem SpellsType.of_keyword {w : String} (hw : isWord w.toList)
    (hkeyword : isKeyword w.toList) : SpellsType w [.keyword w.toList] :=
  ⟨by rw [lex_word hw, Token.ofName, if_pos hkeyword], .keyword _⟩

theorem SpellsType.qualified {space w : String} (hspace : isIdentifier space.toList)
    (hw : isIdentifier w.toList) : SpellsType (space ++ "::" ++ w)
      [.identifier space.toList, .sign .qualifier, .identifier w.toList] := by
  have chars : (space ++ "::" ++ w).toList = space.toList ++ ':' :: ':' :: w.toList := by simp
  refine ⟨?_, .qualified _ _⟩
  rw [chars, lex_word_append (isWord_of_isIdentifier hspace) (by decide) (by decide)
    (lex_qualifier (lex_word (isWord_of_isIdentifier hw))), ofName_of_isIdentifier hspace,
    ofName_of_isIdentifier hw]

theorem std_string : isIdentifier "std".toList ∧ isIdentifier "string".toList := by decide

def vectorTokens (elem : List Token) : List Token :=
  .identifier "std".toList :: .sign .qualifier :: .identifier "vector".toList ::
    .sign (.operator .lt) :: (elem ++ [Token.sign (.operator .gt)])

theorem lex_vector {elem : String} {ts : List Token} (h : lex elem.toList = some ts) :
    lex ("std::vector< " ++ elem ++ " >").toList = some (vectorTokens ts) := by
  have closing : lex [' ', '>'] = some [.sign (.operator .gt)] := by decide
  have inner := (lex_blank (c := ' ') rfl).trans
    (lex_append_separator (c := ' ') (by decide) h closing)
  have opening : lex "std::vector<".toList = some [.identifier "std".toList, .sign .qualifier,
      .identifier "vector".toList, .sign (.operator .lt)] := by decide
  have whole := lex_append_separator (c := ' ') (by decide) opening inner
  have chars : ("std::vector< " ++ elem ++ " >").toList =
      "std::vector<".toList ++ ' ' :: (elem.toList ++ [' ', '>']) := by simp
  rw [chars, whole]
  rfl

theorem SpellsType.vector {elem : String} {ts : List Token} (h : SpellsType elem ts) :
    SpellsType ("std::vector< " ++ elem ++ " >") (vectorTokens ts) :=
  ⟨lex_vector h.lexed, (ReadsType.qualified "std".toList "vector".toList).append h.reads.angled⟩

theorem spellsType_scalar (t : Target) (s : Scalar) :
    SpellsType (t.scalarSpelling s) (t.scalarTokens s) := by
  obtain ⟨dialect, precision, space⟩ := t
  cases s with
  | bool => exact .of_keyword (w := "bool") (by decide) (by decide)
  | int => exact .of_keyword (w := "int") (by decide) (by decide)
  | uint =>
      have lexed : lex "unsigned int".toList =
          some [.keyword "unsigned".toList, .keyword "int".toList] := by decide
      exact ⟨lexed, (ReadsType.keyword "unsigned".toList).append (.keyword "int".toList)⟩
  | half => exact .of_identifier (w := "half") (by decide)
  | float =>
      cases precision with
      | single => exact .of_keyword (w := "float") (by decide) (by decide)
      | double => exact .of_keyword (w := "double") (by decide) (by decide)

theorem isIdentifier_native : ∀ name ∈ nativeNames, isIdentifier name.toList ∧ name ≠ "vector" := by
  decide

theorem spellsType (t : Target) (ht : isIdentifier t.vectorNamespace.toList) :
    (ty : Ty) → ty.Named → ∃ ts, SpellsType (t.spelling ty) ts
  | .void, _ => ⟨_, SpellsType.of_keyword (w := "void") (by decide) (by decide)⟩
  | .scalar s, _ => ⟨_, spellsType_scalar t s⟩
  | .string, _ => ⟨_, SpellsType.qualified std_string.1 std_string.2⟩
  | .struct name members, h => by
      have spelled : t.spelling (.struct name members) = name := unqualified_of_isIdentifier h
      rw [spelled]
      exact ⟨_, .of_identifier h⟩
  | .array elem size, h => by
      obtain ⟨ts, hts⟩ := spellsType t ht elem h
      unfold Target.spelling Target.spell
      cases hform : t.arrayForm elem size true with
      | native spelling shape =>
          obtain ⟨name, hname, rfl⟩ := t.native_spelling hform
          exact ⟨_, .qualified ht (isIdentifier_native name hname).1⟩
      | raw scalar size' => exact (t.arrayForm_ne_raw elem size scalar size' hform).elim
      | container elem' => exact ⟨_, hts.vector⟩

end Cpp

/-! ### Conversions -/

/-- A conversion to a scalar type. The half type is a class, whose conversion is a construction. -/
def Target.conversionTree (t : Target) : Scalar → Tree → Tree
  | .half, tree => .apply (.ofName "half") [tree]
  | s, tree => .cast (t.scalarTokens s) tree

def Target.castTree (t : Target) (wanted given : Ty) (tree : Tree) : Tree :=
  match wanted.scalar?, given.scalar? with
  | some w, some g => if w = g then tree else t.conversionTree w tree
  | _, _ => tree

namespace Cpp

variable {text : String} {tree : Tree}

theorem ReadsAs.static_cast {spelling : String} {ts : List Token} (h : SpellsType spelling ts)
    (hlex : lex ("static_cast<" ++ spelling ++ ">").toList =
      some (.keyword "static_cast".toList :: .sign (.operator .lt) ::
        (ts ++ [Token.sign (.operator .gt)]))) (ht : ReadsAs text tree) :
    Base ("static_cast<" ++ spelling ++ ">" ++ parenthesized text) (.cast ts tree) := by
  refine ReadsAs.conversion hlex (fun stack => ?_)
    ⟨'s', "tatic_cast<".toList ++ (spelling.toList ++ ['>']), by simp, by decide⟩ ht
  have opened : Reader.run ⟨stack, .operand⟩
      [.keyword "static_cast".toList, .sign (.operator .lt)] = some ⟨stack, .type true 0 []⟩ := rfl
  have tokens : .keyword "static_cast".toList :: .sign (.operator .lt) ::
      (ts ++ [Token.sign (.operator .gt)]) =
        [.keyword "static_cast".toList, .sign (.operator .lt)] ++
          (ts ++ [Token.sign (.operator .gt)]) := rfl
  rw [tokens, Reader.run_append_of_run opened, Reader.run_append_of_run (h.reads ..)]
  rfl

theorem lex_conversion (t : Target) {s : Scalar} (hs : s ≠ .half) :
    lex ("static_cast<" ++ t.scalarSpelling s ++ ">").toList =
      some (.keyword "static_cast".toList :: .sign (.operator .lt) ::
        (t.scalarTokens s ++ [Token.sign (.operator .gt)])) := by
  have lexed : ∀ precision, lex ("static_cast<" ++
      (⟨.modern, precision, ""⟩ : Target).scalarSpelling s ++ ">").toList =
        some (.keyword "static_cast".toList :: .sign (.operator .lt) ::
          ((⟨.modern, precision, ""⟩ : Target).scalarTokens s ++
            [Token.sign (.operator .gt)])) := by
    intro precision
    cases s with
    | half => exact absurd rfl hs
    | _ => cases precision <;> decide
  exact lexed t.precision

theorem ReadsAs.converted (t : Target) (s : Scalar) (h : ReadsAs text tree) :
    Base (t.conversion s ++ parenthesized text) (t.conversionTree s tree) := by
  cases s with
  | half =>
      have half : Base "half" (.ofName "half") := .ofIdentifier (by decide)
      have applied := half.apply (.cons h .nil)
      rwa [commaSeparated, String.intercalate_singleton] at applied
  | _ => exact h.static_cast (spellsType_scalar t _) (lex_conversion t (by decide))

theorem ReadsAs.cast (t : Target) (wanted given : Ty) (h : ReadsAs text tree) :
    ReadsAs (t.cast wanted given text) (t.castTree wanted given tree) := by
  unfold Target.cast Target.castTree
  cases wanted.scalar? with
  | none => exact h
  | some w =>
      cases given.scalar? with
      | none => exact h
      | some g =>
          by_cases hsame : w = g
          · simpa only [if_pos hsame] using h
          · simpa only [if_neg hsame] using (h.converted t w).readsAs

end Cpp
end ColorLowering
