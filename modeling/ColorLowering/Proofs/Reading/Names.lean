import ColorLowering.Scope
import ColorLowering.Proofs.Text.Cleaning
import ColorLowering.Proofs.Reading.Compound

/-!
# Names

A symbol is referred to by an identifier or, from elsewhere, by the name of its namespace and an
identifier. Such a reference reads as its parts, as long as the namespace is an identifier itself.
-/
namespace ColorLowering

open Cpp

def Cpp.Tree.ofName (text : String) : Tree :=
  .name ((text.toList.splitOn ':').filter (· ≠ []))

/-- The text that stands for a module where its names are qualified is an identifier, and nothing
that it qualifies looks like a container. -/
structure Program.ReadableNamespaces (p : Program) : Prop where
  identifier : ∀ id m, (p.symbol id).module = some m → isIdentifier (p.namespaceOf m).toList
  noVector : ∀ id m, (p.symbol id).module = some m →
    ¬(p.namespaceOf m = "std" ∧ (p.symbol id).name = "vector")

namespace Cpp

variable {cs ds : List Char} {space w : String}

theorem colon_notMem_of_isIdentifier (h : isIdentifier cs) : ':' ∉ cs := by
  intro hmem
  have word := isWord_of_isIdentifier h
  rw [isWord, Bool.and_eq_true, List.all_eq_true] at word
  exact absurd (word.2 ':' hmem) (by decide)

theorem ne_nil_of_isIdentifier (h : isIdentifier cs) : cs ≠ [] := by
  rintro rfl
  cases h

theorem unqualified_of_isIdentifier (h : isIdentifier w.toList) : Text.unqualified w = w := by
  refine Text.unqualified_of_not_qualifies fun hcolons => ?_
  exact colon_notMem_of_isIdentifier h (hcolons.subset List.mem_cons_self)

theorem Tree.ofName_identifier (hw : isIdentifier w.toList) :
    Tree.ofName w = .name [w.toList] := by
  rw [ofName, List.splitOn_eq_singleton (colon_notMem_of_isIdentifier hw)]
  simp [ne_nil_of_isIdentifier hw]

theorem Tree.ofName_qualified (hspace : isIdentifier space.toList) (hw : isIdentifier w.toList) :
    Tree.ofName (space ++ "::" ++ w) = .name [space.toList, w.toList] := by
  have chars : (space ++ "::" ++ w).toList = space.toList ++ ':' :: ([] ++ ':' :: w.toList) := by
    simp
  rw [ofName, chars,
    List.splitOn_append_cons_self_of_not_mem (colon_notMem_of_isIdentifier hspace),
    List.splitOn_append_cons_self_of_not_mem (by simp),
    List.splitOn_eq_singleton (colon_notMem_of_isIdentifier hw)]
  simp [ne_nil_of_isIdentifier hspace, ne_nil_of_isIdentifier hw]

theorem Base.ofIdentifier (hw : isIdentifier w.toList) : Base w (.ofName w) := by
  rw [Tree.ofName_identifier hw]
  exact .name hw

theorem Base.ofQualified (hspace : isIdentifier space.toList) (hw : isIdentifier w.toList)
    (hvector : ¬(space = "std" ∧ w = "vector")) :
    Base (space ++ "::" ++ w) (.ofName (space ++ "::" ++ w)) := by
  rw [Tree.ofName_qualified hspace hw]
  exact .qualified hspace hw hvector

end Cpp

namespace Scope

variable {s : Scope} {id : SymbolId}

theorem base_qualified {m : ModuleId} {name : String}
    (hspace : isIdentifier (s.program.namespaceOf m).toList) (hname : isIdentifier name.toList)
    (hvector : ¬(s.program.namespaceOf m = "std" ∧ name = "vector")) :
    Base (s.qualified m name) (.ofName (s.qualified m name)) := by
  unfold qualified
  split
  · exact .ofIdentifier hname
  · exact .ofQualified hspace hname hvector

theorem base_resolve (hp : s.program.ReadableNamespaces)
    (hname : isIdentifier (s.program.symbol id).name.toList)
    (hliteral : s.known.literals.get? id = none) :
    Base (s.resolve id) (.ofName (s.resolve id)) := by
  have plain := unqualified_of_isIdentifier hname
  rw [resolve, hliteral]
  dsimp only
  split
  · unfold functionReference
    cases howner : (s.program.symbol id).module with
    | none =>
        have same : s.program.functionName (s.program.symbol id) = (s.program.symbol id).name := by
          rw [Program.functionName, howner, plain]
        dsimp only
        rw [same]
        exact .ofQualified (by decide) hname (by simp [builtinNamespace])
    | some m =>
        have space := hp.identifier id m howner
        dsimp only
        rw [Program.functionName, howner]
        dsimp only
        split
        · refine base_qualified space space ?_
          rintro ⟨hstd, hvector⟩
          rw [hstd] at hvector
          exact absurd hvector (by decide)
        · rw [plain]
          exact base_qualified space hname (hp.noVector id m howner)
  · unfold variableReference
    rw [plain]
    cases howner : (s.program.symbol id).module with
    | none => exact .ofIdentifier hname
    | some m =>
        dsimp only
        split
        · exact base_qualified (hp.identifier id m howner) hname (hp.noVector id m howner)
        · exact .ofIdentifier hname

end Scope
end ColorLowering
