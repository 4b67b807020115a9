import ColorLowering.Proofs.Statements.Tokens

/-!
# Which nestings are read back

A branch that is one statement other than a declaration has no braces. It ends open if it is a
conditional without an `else` part, or one whose `else` part ends open, and an `else` that follows
it is then read as its own. Statements are read back with their own nesting exactly when no branch
before an `else` ends open.
-/
namespace ColorLowering

/-- How statements are nested, whatever their texts are. -/
inductive Nesting where
  | line
  | declaration
  | branch (thenBody elseBody : List Nesting)
  | loop (body : List Nesting)

namespace Nesting

/-- Whether an `else` that follows is read as part of the statement. -/
def endsOpen : Nesting → Bool
  | .branch _ [] => true
  | .branch _ [last] => last.endsOpen
  | _ => false

def bodyEndsOpen : List Nesting → Bool
  | [only] => only.endsOpen
  | _ => false

mutual
/-- No branch before an `else` ends open. -/
def isClear : Nesting → Bool
  | .branch thenBody elseBody =>
    allClear thenBody && allClear elseBody && (elseBody.isEmpty || !bodyEndsOpen thenBody)
  | .loop body => allClear body
  | _ => true

def allClear : List Nesting → Bool
  | [] => true
  | n :: rest => n.isClear && allClear rest
end

theorem endsOpen_branch (thenBody elseBody : List Nesting) :
    (branch thenBody elseBody).endsOpen = (elseBody.isEmpty || bodyEndsOpen elseBody) := by
  cases elseBody with
  | nil => simp [endsOpen]
  | cons n rest =>
      cases rest with
      | nil => simp [endsOpen, bodyEndsOpen]
      | cons next others => simp [endsOpen, bodyEndsOpen]

end Nesting

/-- A statement with its texts. -/
inductive Code where
  | line (text : String)
  | declare (text : String) (fill : Option (List String))
  | branch (cond : String) (thenBody elseBody : List Code)
  | loop (cond : String) (body : List Code)

namespace Code

def isDeclaration : Code → Bool
  | .declare .. => true
  | _ => false

mutual
def nesting : Code → Nesting
  | .line _ => .line
  | .declare .. => .declaration
  | .branch _ thenBody elseBody => .branch (nestings thenBody) (nestings elseBody)
  | .loop _ body => .loop (nestings body)

def nestings : List Code → List Nesting
  | [] => []
  | c :: rest => c.nesting :: nestings rest
end

def lineToken (text : String) : Token := .line (Text.flush text)

def fillTokens : Option (List String) → List Token
  | none => []
  | some statements => .openBrace :: (statements.map lineToken ++ [.closeBrace])

def branchTokens : List Code → List Token → List Token
  | [c], inside =>
    if c.isDeclaration then .openBrace :: (inside ++ [.closeBrace]) else inside
  | _, inside => .openBrace :: (inside ++ [.closeBrace])

mutual
def tokens : Code → List Token
  | .line text => [lineToken text]
  | .declare text fill => lineToken text :: fillTokens fill
  | .branch cond thenBody elseBody =>
    .ifHead (Text.flush (headText "if" cond)) :: (branchTokens thenBody (allTokens thenBody) ++
      if elseBody.isEmpty then [] else .elseKeyword :: branchTokens elseBody (allTokens elseBody))
  | .loop cond body =>
    .whileHead (Text.flush (headText "while" cond)) ::
      .openBrace :: (allTokens body ++ [.closeBrace])

def allTokens : List Code → List Token
  | [] => []
  | c :: rest => c.tokens ++ allTokens rest
end

def lineOutline (text : String) : Outline := .line (Text.flush text)

def fillOutlines : Option (List String) → List Outline
  | none => []
  | some statements => [.block (statements.map lineOutline)]

mutual
def outlines : Code → List Outline
  | .line text => [lineOutline text]
  | .declare text fill => lineOutline text :: fillOutlines fill
  | .branch cond thenBody elseBody =>
    [.cond (Text.flush (headText "if" cond)) (allOutlines thenBody)
      (if elseBody.isEmpty then none else some (allOutlines elseBody))]
  | .loop cond body => [.loop (Text.flush (headText "while" cond)) (allOutlines body)]

def allOutlines : List Code → List Outline
  | [] => []
  | c :: rest => c.outlines ++ allOutlines rest
end

theorem isEmpty_nestings (cs : List Code) : (nestings cs).isEmpty = cs.isEmpty := by
  cases cs <;> rfl

theorem eq_declare {c : Code} (hc : c.isDeclaration) : ∃ text fill, c = declare text fill := by
  cases c with
  | declare text fill => exact ⟨text, fill, rfl⟩
  | line text => cases hc
  | branch cond thenBody elseBody => cases hc
  | loop cond body => cases hc

theorem exists_outlines_eq {c : Code} (hc : c.isDeclaration = false) : ∃ o, c.outlines = [o] := by
  cases c with
  | declare text fill => cases hc
  | line text => exact ⟨_, by rw [outlines]⟩
  | branch cond thenBody elseBody => exact ⟨_, by rw [outlines]⟩
  | loop cond body => exact ⟨_, by rw [outlines]⟩

theorem head?_tokens_ne_else (c : Code) (more : List Token) :
    (c.tokens ++ more).head? ≠ some .elseKeyword := by
  cases c <;> simp [tokens, lineToken]

theorem head?_allTokens_ne_else (cs : List Code) {more : List Token}
    (hmore : ∀ token ∈ more.head?, token = .closeBrace) :
    (allTokens cs ++ more).head? ≠ some .elseKeyword := by
  cases cs with
  | nil =>
      intro h
      cases hmore _ h
  | cons c rest =>
      rw [allTokens, List.append_assoc]
      exact head?_tokens_ne_else c _

theorem head?_tokens_ne_openBrace (c : Code) (more : List Token) :
    (c.tokens ++ more).head? ≠ some .openBrace := by
  cases c <;> simp [tokens, lineToken]

theorem reads_lines (statements : List String) (more : List Token)
    (hmore : ∀ token ∈ more.head?, token = .closeBrace) :
    Reads .list (statements.map lineToken ++ more) (statements.map lineOutline) more := by
  induction statements with
  | nil => exact .nil hmore
  | cons text rest ih => exact .cons .line ih

theorem reads_declare (text : String) (fill : Option (List String)) {more rest : List Token}
    {others : List Outline} (h : Reads .list more others rest) :
    Reads .list ((declare text fill).tokens ++ more) ((declare text fill).outlines ++ others)
      rest := by
  cases fill with
  | none =>
      simp only [tokens, outlines, fillTokens, fillOutlines, List.cons_append, List.nil_append]
      exact .cons .line h
  | some statements =>
      simp only [tokens, outlines, fillTokens, fillOutlines, List.cons_append, List.nil_append,
        List.append_assoc]
      exact .cons .line (.cons (.block (reads_lines statements _ (by simp))) h)

theorem branchTokens_cases (body : List Code) (inside : List Token) :
    (∃ c, body = [c] ∧ c.isDeclaration = false ∧ branchTokens body inside = inside) ∨
      (Nesting.bodyEndsOpen (nestings body) = false ∧
        branchTokens body inside = .openBrace :: (inside ++ [.closeBrace])) := by
  match body with
  | [] => exact .inr ⟨rfl, rfl⟩
  | [c] =>
    cases hc : c.isDeclaration with
    | false => exact .inl ⟨c, rfl, hc, by rw [branchTokens, if_neg (by simp [hc])]⟩
    | true =>
        refine .inr ⟨?_, by rw [branchTokens, if_pos hc]⟩
        cases c <;> simp_all [isDeclaration, nestings, nesting, Nesting.bodyEndsOpen,
          Nesting.endsOpen]
  | c :: next :: rest =>
    refine .inr ⟨?_, rfl⟩
    simp [nestings, Nesting.bodyEndsOpen]

/-- A branch is read back if its statements are, each by itself and all as a list. -/
theorem reads_branch {body : List Code} {more : List Token}
    (hlist : Reads .list (allTokens body ++ .closeBrace :: more) (allOutlines body)
      (.closeBrace :: more))
    (hbare : ∀ c, body = [c] → c.isDeclaration = false →
      Reads .statement (c.tokens ++ more) c.outlines more) :
    Reads .body (branchTokens body (allTokens body) ++ more) (allOutlines body) more := by
  obtain ⟨c, rfl, hc, htokens⟩ | ⟨-, htokens⟩ := branchTokens_cases body (allTokens body)
  · rw [htokens]
    simp only [allTokens, allOutlines, List.append_nil]
    exact .bare (head?_tokens_ne_openBrace c more) (hbare c rfl hc)
  · rw [htokens]
    simp only [List.cons_append, List.append_assoc, List.nil_append]
    exact .braced hlist

mutual
theorem reads_of_isClear :
    (c : Code) → c.nesting.isClear → c.isDeclaration = false → ∀ more,
      (c.nesting.endsOpen → more.head? ≠ some .elseKeyword) →
      Reads .statement (c.tokens ++ more) c.outlines more
  | .line text, _, _, more, _ => .line
  | .declare _ _, _, hc, _, _ => by cases hc
  | .loop cond body, hclear, _, more, _ => by
      rw [nesting, Nesting.isClear] at hclear
      simp only [tokens, outlines, List.cons_append, List.append_assoc, List.nil_append]
      exact .loop (.braced ((reads_of_allClear body hclear).1 _ (by simp)))
  | .branch cond thenBody elseBody, hclear, _, more, hmore => by
      rw [nesting, Nesting.isClear, Bool.and_eq_true, Bool.and_eq_true] at hclear
      obtain ⟨⟨hthen, helse⟩, hopen⟩ := hclear
      rw [nesting, Nesting.endsOpen_branch] at hmore
      simp only [tokens, outlines, List.cons_append, List.append_assoc]
      by_cases hempty : elseBody.isEmpty
      · have after := hmore (by simp [isEmpty_nestings, hempty])
        simp only [if_pos hempty, List.nil_append]
        exact .cond ((reads_of_allClear thenBody hthen).2 _ fun _ => after) after
      · rw [isEmpty_nestings, Bool.or_eq_true, or_iff_right hempty, Bool.not_eq_true'] at hopen
        simp only [if_neg hempty, List.cons_append]
        refine .condElse ((reads_of_allClear thenBody hthen).2 _ (by simp [hopen])) ?_
        exact (reads_of_allClear elseBody helse).2 more fun h => hmore (by simp [h])

theorem reads_of_allClear :
    (cs : List Code) → Nesting.allClear (nestings cs) →
      (∀ more, (∀ token ∈ more.head?, token = .closeBrace) →
        Reads .list (allTokens cs ++ more) (allOutlines cs) more) ∧
      ∀ more, (Nesting.bodyEndsOpen (nestings cs) → more.head? ≠ some .elseKeyword) →
        Reads .body (branchTokens cs (allTokens cs) ++ more) (allOutlines cs) more
  | [], _ => by
      have list : ∀ more : List Token, (∀ token ∈ more.head?, token = .closeBrace) →
          Reads .list (allTokens [] ++ more) (allOutlines []) more := fun more hmore => .nil hmore
      exact ⟨list, fun more _ => reads_branch (list _ (by simp)) (by simp)⟩
  | c :: rest, hclear => by
      rw [nestings, Nesting.allClear, Bool.and_eq_true] at hclear
      have list : ∀ more : List Token, (∀ token ∈ more.head?, token = .closeBrace) →
          Reads .list (allTokens (c :: rest) ++ more) (allOutlines (c :: rest)) more := by
        intro more hmore
        have later := (reads_of_allClear rest hclear.2).1 more hmore
        rw [allTokens, allOutlines, List.append_assoc]
        cases hc : c.isDeclaration with
        | false =>
            obtain ⟨o, ho⟩ := exists_outlines_eq hc
            have first := reads_of_isClear c hclear.1 hc (allTokens rest ++ more) fun _ =>
              head?_allTokens_ne_else rest hmore
            rw [ho] at first ⊢
            exact .cons first later
        | true =>
            obtain ⟨text, fill, rfl⟩ := eq_declare hc
            exact reads_declare text fill later
      refine ⟨list, fun more hmore => reads_branch (list _ (by simp)) ?_⟩
      intro only hone hc
      cases hone
      exact reads_of_isClear c hclear.1 hc more
        (by simpa [nestings, Nesting.bodyEndsOpen] using hmore)
end

theorem of_reads_declare {text : String} {fill : Option (List String)} {more rest : List Token}
    {others : List Outline}
    (h : Reads .list ((declare text fill).tokens ++ more) ((declare text fill).outlines ++ others)
      rest) : Reads .list more others rest := by
  cases fill with
  | none =>
      simp only [tokens, outlines, fillTokens, fillOutlines, List.cons_append, List.nil_append] at h
      cases h with
      | cons hline hmore =>
          cases hline
          exact hmore
  | some statements =>
      simp only [tokens, outlines, fillTokens, fillOutlines, List.cons_append, List.nil_append,
        List.append_assoc] at h
      cases h with
      | cons hline hblock =>
          cases hline
          cases hblock with
          | cons hblock hmore =>
              have lines := reads_lines statements (.closeBrace :: more) (by simp)
              obtain ⟨-, rfl⟩ := hblock.unique (.block lines)
              exact hmore

/-- A branch that is read back is clear if its statements are, each by itself and all as a list. -/
theorem allClear_of_reads_branch {body : List Code} {more rest : List Token}
    (hlist : ∀ more rest, Reads .list (allTokens body ++ more) (allOutlines body) rest →
      Nesting.allClear (nestings body) ∧ rest = more)
    (hbare : ∀ c, body = [c] → c.isDeclaration = false →
      Reads .statement (c.tokens ++ more) c.outlines rest →
      c.nesting.isClear ∧ rest = more ∧ (c.nesting.endsOpen → more.head? ≠ some .elseKeyword))
    (h : Reads .body (branchTokens body (allTokens body) ++ more) (allOutlines body) rest) :
    Nesting.allClear (nestings body) ∧ rest = more ∧
      (Nesting.bodyEndsOpen (nestings body) → more.head? ≠ some .elseKeyword) := by
  obtain ⟨c, rfl, hc, htokens⟩ | ⟨hopen, htokens⟩ := branchTokens_cases body (allTokens body)
  · rw [htokens] at h
    simp only [allTokens, allOutlines, List.append_nil] at h
    have hfirst := head?_tokens_ne_openBrace c more
    have hstatement : Reads .statement (c.tokens ++ more) c.outlines rest := by
      generalize c.tokens ++ more = tokens at h hfirst
      cases h with
      | bare _ hstatement => exact hstatement
      | braced _ => simp at hfirst
    obtain ⟨hclear, hrest, hafter⟩ := hbare c rfl hc hstatement
    exact ⟨by simp [nestings, Nesting.allClear, hclear], hrest,
      by simpa [nestings, Nesting.bodyEndsOpen] using hafter⟩
  · rw [htokens] at h
    simp only [List.cons_append, List.append_assoc, List.nil_append] at h
    cases h with
    | bare hfirst _ => simp at hfirst
    | braced hinside =>
        obtain ⟨hclear, hrest⟩ := hlist _ _ hinside
        cases hrest
        exact ⟨hclear, rfl, by simp [hopen]⟩

mutual
theorem isClear_of_reads :
    (c : Code) → c.isDeclaration = false → ∀ more rest,
      Reads .statement (c.tokens ++ more) c.outlines rest →
      c.nesting.isClear ∧ rest = more ∧ (c.nesting.endsOpen → more.head? ≠ some .elseKeyword)
  | .line text, _, more, rest, h => by
      cases h
      exact ⟨rfl, rfl, by simp [nesting, Nesting.endsOpen]⟩
  | .declare _ _, hc, _, _, _ => by cases hc
  | .loop cond body, _, more, rest, h => by
      simp only [tokens, outlines, List.cons_append, List.append_assoc, List.nil_append] at h
      cases h with
      | loop hbody =>
          cases hbody with
          | bare hfirst _ => simp at hfirst
          | braced hlist =>
              obtain ⟨hclear, hrest⟩ := (allClear_of_reads body).1 _ _ hlist
              cases hrest
              exact ⟨by rw [nesting, Nesting.isClear]; exact hclear, rfl,
                by simp [nesting, Nesting.endsOpen]⟩
  | .branch cond thenBody elseBody, _, more, rest, h => by
      simp only [tokens, outlines, List.cons_append, List.append_assoc] at h
      simp only [nesting, Nesting.isClear, Nesting.endsOpen_branch, isEmpty_nestings]
      by_cases hempty : elseBody.isEmpty
      · simp only [if_pos hempty, List.nil_append] at h
        cases h with
        | cond hthen hafter =>
            obtain ⟨hclear, rfl, -⟩ := (allClear_of_reads thenBody).2 _ _ hthen
            rw [List.isEmpty_iff.mp hempty]
            exact ⟨by simp [hclear, nestings, Nesting.allClear], rfl, fun _ => hafter⟩
      · simp only [if_neg hempty, List.cons_append] at h
        cases h with
        | condElse hthen helse =>
            obtain ⟨hclearThen, hmiddle, hopen⟩ := (allClear_of_reads thenBody).2 _ _ hthen
            cases hmiddle
            obtain ⟨hclearElse, rfl, hafter⟩ := (allClear_of_reads elseBody).2 _ _ helse
            refine ⟨?_, rfl, fun hends => hafter (by simpa [hempty] using hends)⟩
            simp only [List.head?_cons, ne_eq, not_true_eq_false, imp_false,
              Bool.not_eq_true] at hopen
            simp [hclearThen, hclearElse, hopen]

theorem allClear_of_reads :
    (cs : List Code) →
      (∀ more rest, Reads .list (allTokens cs ++ more) (allOutlines cs) rest →
        Nesting.allClear (nestings cs) ∧ rest = more) ∧
      ∀ more rest, Reads .body (branchTokens cs (allTokens cs) ++ more) (allOutlines cs) rest →
        Nesting.allClear (nestings cs) ∧ rest = more ∧
          (Nesting.bodyEndsOpen (nestings cs) → more.head? ≠ some .elseKeyword)
  | [] => by
      have list : ∀ more rest, Reads .list (allTokens [] ++ more) (allOutlines []) rest →
          Nesting.allClear (nestings []) ∧ rest = more := by
        intro more rest h
        cases h
        exact ⟨rfl, rfl⟩
      exact ⟨list, fun more rest => allClear_of_reads_branch list (by simp)⟩
  | c :: others => by
      have list : ∀ more rest, Reads .list (allTokens (c :: others) ++ more)
          (allOutlines (c :: others)) rest →
          Nesting.allClear (nestings (c :: others)) ∧ rest = more := by
        intro more rest h
        rw [allTokens, allOutlines, List.append_assoc] at h
        rw [nestings, Nesting.allClear, Bool.and_eq_true]
        cases hc : c.isDeclaration with
        | false =>
            obtain ⟨o, ho⟩ := exists_outlines_eq hc
            rw [ho] at h
            cases h with
            | cons hfirst hlater =>
                rw [← ho] at hfirst
                obtain ⟨hclear, rfl, -⟩ := isClear_of_reads c hc _ _ hfirst
                obtain ⟨hothers, rfl⟩ := (allClear_of_reads others).1 _ _ hlater
                exact ⟨⟨hclear, hothers⟩, rfl⟩
        | true =>
            obtain ⟨text, fill, rfl⟩ := eq_declare hc
            obtain ⟨hothers, rfl⟩ := (allClear_of_reads others).1 _ _ (of_reads_declare h)
            exact ⟨⟨rfl, hothers⟩, rfl⟩
      refine ⟨list, fun more rest => allClear_of_reads_branch list ?_⟩
      intro only hone hc
      cases hone
      exact isClear_of_reads c hc more rest
end

/-- Statements are read back with their own nesting exactly when no branch before an `else` ends
open. -/
theorem reads_iff_allClear (cs : List Code) :
    Reads .list (allTokens cs) (allOutlines cs) [] ↔ Nesting.allClear (nestings cs) := by
  constructor
  · intro h
    exact ((allClear_of_reads cs).1 [] [] (by simpa using h)).1
  · intro h
    simpa using (reads_of_allClear cs h).1 [] (by simp)

end Code
end ColorLowering
