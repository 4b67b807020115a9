import ColorLowering.Proofs.Emission.Growth
import ColorLowering.Proofs.Statements.Code

/-!
# Emitted statements and their nesting

The text of statements consists of the tokens of their code, so it is read back with the nesting of
the statements exactly when no branch before an `else` ends open.
-/
namespace ColorLowering

namespace EmissionState

/-- What is left of `s` once the tokens are written and the texts of defaults are known. -/
def Wrote (s t : EmissionState) (texts : DefaultTexts) (tokens : List Token) : Prop :=
  ∃ pieces : Array String,
    t = (s.withTexts texts).withBody ⟨s.body.pieces ++ pieces, s.body.level⟩ ∧
      pieces.toList.flatMap Token.ofPiece = tokens

theorem wrote_texts (s : EmissionState) (texts : DefaultTexts) :
    s.Wrote (s.withTexts texts) texts [] :=
  ⟨#[], by simp [withTexts, withBody], rfl⟩

theorem Wrote.trans {s t u : EmissionState} {texts texts' : DefaultTexts}
    {first second : List Token} (hst : s.Wrote t texts first) (htu : t.Wrote u texts' second) :
    s.Wrote u texts' (first ++ second) := by
  obtain ⟨early, rfl, rfl⟩ := hst
  obtain ⟨late, rfl, rfl⟩ := htu
  refine ⟨early ++ late, ?_, by simp⟩
  simp [withTexts, withBody, Array.append_assoc]

theorem Wrote.known {s t : EmissionState} {texts : DefaultTexts} {tokens : List Token}
    (h : s.Wrote t texts tokens) : t.tables.known = s.tables.known := by
  obtain ⟨pieces, rfl, -⟩ := h
  rfl

theorem Wrote.defaultTexts {s t : EmissionState} {texts : DefaultTexts} {tokens : List Token}
    (h : s.Wrote t texts tokens) : t.tables.defaultTexts = texts := by
  obtain ⟨pieces, rfl, -⟩ := h
  rfl

theorem wrote_raw (s : EmissionState) (piece : String) :
    s.Wrote (s.withBody (s.body.raw piece)) s.tables.defaultTexts (Token.ofPiece piece) :=
  ⟨#[piece], by simp [withTexts, withBody, Text.Writer.raw], by simp⟩

theorem wrote_line (s : EmissionState) (text : String) :
    s.Wrote (s.withBody (s.body.line text)) s.tables.defaultTexts
      (Token.ofText (Text.flush text)) := by
  have written := s.wrote_raw (Text.Writer.indentLines s.body.level text)
  rwa [Token.ofPiece_indentLines] at written

theorem wrote_statement (s : EmissionState) {text : String} (htext : EndsStatement text) :
    s.Wrote (s.withBody (s.body.line text)) s.tables.defaultTexts [Code.lineToken text] := by
  obtain ⟨start, rfl⟩ := htext
  have written := s.wrote_line (start ++ ";")
  rwa [Token.ofText_line] at written

/-- Margins leave no token, so what was written inside one is written. -/
theorem Wrote.indented {s t : EmissionState} {texts : DefaultTexts} {tokens : List Token}
    (h : (s.withBody s.body.indent).Wrote t texts tokens) :
    s.Wrote (t.withBody t.body.dedent) texts tokens := by
  obtain ⟨pieces, rfl, htokens⟩ := h
  exact ⟨pieces, rfl, htokens⟩

theorem Wrote.braced {s t : EmissionState} {texts : DefaultTexts} {tokens : List Token}
    (h : (s.withBody s.body.openBrace).Wrote t texts tokens) :
    s.Wrote (t.withBody (t.body.closeBraceWith "")) texts
      (.openBrace :: (tokens ++ [.closeBrace])) := by
  have opened := s.wrote_line "\x7b"
  have inside : (s.withBody (s.body.line "\x7b")).Wrote (t.withBody t.body.dedent) texts tokens :=
    Wrote.indented h
  have closed := (t.withBody t.body.dedent).wrote_raw
    (String.ofList (Text.Writer.margin t.body.dedent.level) ++ "\x7d" ++ "" ++ "\n")
  rw [Token.ofPiece_closeBrace, inside.defaultTexts] at closed
  have written := (opened.trans inside).trans closed
  exact written

end EmissionState
namespace Emission

def WroteAs {α : Type} (ctx : ModuleContext) (r : Rendering α) (tokens : α → List Token)
    (s t : EmissionState) : Prop :=
  ∃ a texts, r (ctx.scope s.tables.known false) s.tables.defaultTexts = (.ok a, texts) ∧
    s.Wrote t texts (tokens a)

variable {ctx : ModuleContext} {s t : EmissionState}

theorem render_ok {α : Type} {r : Rendering α} {a : α} (hrun : render r ctx s = (.ok a, t)) :
    ∃ texts, r (ctx.scope s.tables.known false) s.tables.defaultTexts = (.ok a, texts) ∧
      t = s.withTexts texts := by
  rw [render, rendering_apply] at hrun
  obtain ⟨hresult, rfl⟩ := Prod.mk.inj hrun
  exact ⟨_, Prod.ext hresult rfl, rfl⟩

theorem braced_ok {content : Emission Unit} (hrun : braced content ctx s = (.ok (), t)) :
    ∃ u, content ctx (s.withBody s.body.openBrace) = (.ok (), u) ∧
      t = u.withBody (u.body.closeBraceWith "") := by
  obtain ⟨_, opened, hopen, hrun⟩ := bind_eq_ok.mp hrun
  cases hopen
  obtain ⟨_, u, hcontent, hclose⟩ := bind_eq_ok.mp hrun
  cases hclose
  exact ⟨u, hcontent, rfl⟩

theorem indented_ok {content : Emission Unit} (hrun : indented content ctx s = (.ok (), t)) :
    ∃ u, content ctx (s.withBody s.body.indent) = (.ok (), u) ∧ t = u.withBody u.body.dedent := by
  obtain ⟨_, moved, hmove, hrun⟩ := bind_eq_ok.mp hrun
  cases hmove
  obtain ⟨_, u, hcontent, hback⟩ := bind_eq_ok.mp hrun
  cases hback
  exact ⟨u, hcontent, rfl⟩

theorem wrote_lines {lines : List String} (hlines : ∀ line ∈ lines, EndsStatement line)
    (hrun : lines.forM line ctx s = (.ok (), t)) :
    s.Wrote t s.tables.defaultTexts (lines.map Code.lineToken) := by
  rw [List.forM_eq_forM] at hrun
  induction lines generalizing s with
  | nil =>
      cases hrun
      exact EmissionState.wrote_texts _ _
  | cons text rest ih =>
      rw [List.forM_cons] at hrun
      obtain ⟨_, u, hline, hrest⟩ := bind_eq_ok.mp hrun
      cases hline
      have first := s.wrote_statement (hlines text List.mem_cons_self)
      have others := ih (fun line hline => hlines line (List.mem_cons_of_mem _ hline)) hrest
      exact first.trans others

theorem wrote_renderedLine {r : Rendering String} {around : String → String}
    (hends : ∀ text, EndsStatement (around text))
    (hrun : (render r >>= fun text => line (around text)) ctx s = (.ok (), t)) :
    WroteAs ctx r (fun text => [Code.lineToken (around text)]) s t := by
  obtain ⟨text, u, hu, hline⟩ := bind_eq_ok.mp hrun
  obtain ⟨texts, htext, rfl⟩ := render_ok hu
  cases hline
  have written := (s.withTexts texts).wrote_statement (hends text)
  exact ⟨text, texts, htext, (s.wrote_texts texts).trans written⟩

theorem wrote_localVariable {symbol : SymbolId} {init : Option Expr}
    (hrun : localVariable symbol init ctx s = (.ok (), t)) :
    WroteAs ctx (Rendering.localCode symbol init) Code.tokens s t := by
  obtain ⟨ctx', s₁, hread, hrun⟩ := bind_eq_ok.mp hrun
  cases hread
  let object := ctx.program.symbol symbol
  let name := Text.unqualified object.name
  change ∃ c texts, Rendering.declarationCode
    (ctx.target.declare name object.ty (.object !object.isWritable)) name object.ty init
      (ctx.scope s.tables.known false) s.tables.defaultTexts = (.ok c, texts) ∧ _
  generalize ctx.target.declare _ _ _ = d at hrun ⊢
  obtain ⟨text, strategy?⟩ := d
  cases init with
  | none =>
      cases hrun
      exact ⟨_, _, rfl, s.wrote_statement ⟨text, rfl⟩⟩
  | some init =>
      cases strategy? with
      | none => cases hrun
      | some strategy =>
          obtain ⟨i, u, hi, hrun⟩ := bind_eq_ok.mp hrun
          obtain ⟨texts, hrendered, rfl⟩ := render_ok hi
          have ends := Rendering.endsStatement_of_initializer hrendered
          have rendered := s.wrote_texts texts
          cases i with
          | inline value =>
              cases hrun
              refine ⟨_, texts, Rendering.bind_eq_ok.mpr ⟨_, texts, hrendered, rfl⟩, ?_⟩
              obtain ⟨start, hvalue⟩ := ends value List.mem_cons_self
              exact rendered.trans ((s.withTexts texts).wrote_statement
                ⟨text ++ start, by rw [hvalue, String.append_assoc]⟩)
          | deferred statements =>
              obtain ⟨_, v, hline, hfill⟩ := bind_eq_ok.mp hrun
              cases hline
              refine ⟨_, texts, Rendering.bind_eq_ok.mpr ⟨_, texts, hrendered, rfl⟩, ?_⟩
              obtain ⟨w, hlines, rfl⟩ := braced_ok hfill
              have declared := (s.withTexts texts).wrote_statement ⟨text, rfl⟩
              have filled := (wrote_lines ends hlines).braced
              exact (rendered.trans declared).trans filled

theorem isDeclaration_of_nesting {c : Code} {st : Stmt} (h : c.nesting = st.nesting) :
    c.isDeclaration = st.isDeclaration := by
  cases c <;> cases st <;>
    simp_all [Code.nesting, Stmt.nesting, Code.isDeclaration, Stmt.isDeclaration]

theorem branch_eq (ss : List Stmt) (content : Emission Unit) :
    branch ss content = if Stmt.isBare ss then indented content else braced content := by
  match ss with
  | [] => rfl
  | [st] => cases h : st.isDeclaration <;> simp [branch, Stmt.isBare, h]
  | _ :: _ :: _ => rfl

theorem branchTokens_eq {cs : List Code} {ss : List Stmt}
    (h : Code.nestings cs = Stmt.nestings ss) (inside : List Token) :
    Code.branchTokens cs inside =
      if Stmt.isBare ss then inside else .openBrace :: (inside ++ [.closeBrace]) := by
  match cs, ss with
  | [], [] => rfl
  | [c], [st] =>
    have same : c.nesting = st.nesting := by simpa [Code.nestings, Stmt.nestings] using h
    cases hst : st.isDeclaration <;>
      simp [Code.branchTokens, Stmt.isBare, isDeclaration_of_nesting same, hst]
  | _ :: _ :: _, _ :: _ :: _ => rfl
  | [], _ :: _ => simp [Code.nestings, Stmt.nestings] at h
  | _ :: _, [] => simp [Code.nestings, Stmt.nestings] at h
  | [_], _ :: _ :: _ => simp [Code.nestings, Stmt.nestings] at h
  | _ :: _ :: _, [_] => simp [Code.nestings, Stmt.nestings] at h

/-- A branch is written as its statements are, in braces or at a deeper margin. -/
theorem wrote_branch {returnTy : Ty} {ss : List Stmt} {content : Emission Unit}
    (hcontent : ∀ s t, content ctx s = (.ok (), t) →
      WroteAs ctx (Rendering.codes returnTy ss) Code.allTokens s t)
    (hrun : branch ss content ctx s = (.ok (), t)) :
    WroteAs ctx (Rendering.codes returnTy ss)
      (fun cs => Code.branchTokens cs (Code.allTokens cs)) s t := by
  rw [branch_eq] at hrun
  by_cases hbare : Stmt.isBare ss
  · rw [if_pos hbare] at hrun
    obtain ⟨u, hu, rfl⟩ := indented_ok hrun
    obtain ⟨cs, texts, hcs, written⟩ := hcontent _ _ hu
    refine ⟨cs, texts, hcs, ?_⟩
    dsimp only
    rw [branchTokens_eq (Rendering.nestings_of_codes _ _ _ _ _ hcs), if_pos hbare]
    exact written.indented
  · rw [if_neg hbare] at hrun
    obtain ⟨u, hu, rfl⟩ := braced_ok hrun
    obtain ⟨cs, texts, hcs, written⟩ := hcontent _ _ hu
    refine ⟨cs, texts, hcs, ?_⟩
    dsimp only
    rw [branchTokens_eq (Rendering.nestings_of_codes _ _ _ _ _ hcs), if_neg hbare]
    exact written.braced

theorem isBare_of_continuesChain {ss : List Stmt} (h : continuesChain ss) : Stmt.isBare ss := by
  match ss with
  | [] => cases h
  | [st] => cases st <;> simp_all [continuesChain, Stmt.isBranch, Stmt.isBare, Stmt.isDeclaration]
  | _ :: _ :: _ => cases h

def lead (chained : Bool) : List Token := if chained then [.elseKeyword] else []

def keyword (chained : Bool) : String := if chained then "else if" else "if"

theorem ofText_head (chained : Bool) (cond : String) :
    Token.ofText (Text.flush (headText (keyword chained) cond)) =
      lead chained ++ [.ifHead (Text.flush (headText "if" cond))] := by
  cases chained with
  | false => exact Token.ofText_if cond
  | true => exact Token.ofText_elseIf cond

def elseTokens (cs : List Code) : List Token :=
  if cs.isEmpty then [] else .elseKeyword :: Code.branchTokens cs (Code.allTokens cs)

/-- An `else` part is not written at all, or continues the chain, or is a branch of its own. -/
theorem wrote_elsePart {returnTy : Ty} {ss : List Stmt} {chain content : Emission Unit}
    (hchain : continuesChain ss → ∀ s t, chain ctx s = (.ok (), t) →
      WroteAs ctx (Rendering.codes returnTy ss) (fun cs => lead true ++ Code.allTokens cs) s t)
    (hcontent : ∀ s t, content ctx s = (.ok (), t) →
      WroteAs ctx (Rendering.codes returnTy ss) Code.allTokens s t)
    (hrun : (if ss.isEmpty then pure ()
      else if continuesChain ss then chain
      else do
        line "else"
        branch ss content : Emission Unit) ctx s = (.ok (), t)) :
    WroteAs ctx (Rendering.codes returnTy ss) elseTokens s t := by
  by_cases hempty : ss.isEmpty
  · rw [if_pos hempty] at hrun
    cases hrun
    rw [List.isEmpty_iff.mp hempty]
    exact ⟨[], _, by rw [Rendering.codes]; rfl, s.wrote_texts _⟩
  · rw [if_neg hempty] at hrun
    have elseShape {cs : List Code} (h : Code.nestings cs = Stmt.nestings ss) :
        elseTokens cs = .elseKeyword :: Code.branchTokens cs (Code.allTokens cs) := by
      have hcs : ¬cs.isEmpty := by
        rw [← Code.isEmpty_nestings, h]
        cases ss <;> simp_all [Stmt.nestings]
      rw [elseTokens, if_neg hcs]
    by_cases hcontinues : continuesChain ss
    · rw [if_pos hcontinues] at hrun
      obtain ⟨cs, texts, hcs, written⟩ := hchain hcontinues _ _ hrun
      have nestings := Rendering.nestings_of_codes _ _ _ _ _ hcs
      refine ⟨cs, texts, hcs, ?_⟩
      rw [elseShape nestings, branchTokens_eq nestings,
        if_pos (isBare_of_continuesChain hcontinues)]
      exact written
    · rw [if_neg hcontinues] at hrun
      obtain ⟨_, u, hword, hbranch⟩ := bind_eq_ok.mp hrun
      cases hword
      obtain ⟨cs, texts, hcs, written⟩ := wrote_branch hcontent hbranch
      refine ⟨cs, texts, hcs, ?_⟩
      rw [elseShape (Rendering.nestings_of_codes _ _ _ _ _ hcs)]
      exact (s.wrote_line "else").trans written

mutual
theorem wrote_statement (returnTy : Ty) (chained : Bool) : (st : Stmt) → (chained → st.isBranch) →
    ∀ s t, statement returnTy (keyword chained) st ctx s = (.ok (), t) →
      WroteAs ctx (Rendering.code returnTy st) (fun c => lead chained ++ c.tokens) s t
  | .declare symbol init, hchained, s, t, hrun => by
      obtain rfl : chained = false := by simpa [Stmt.isBranch] using hchained
      rw [statement] at hrun
      rw [Rendering.code]
      exact wrote_localVariable hrun
  | .assign target value, hchained, s, t, hrun => by
      obtain rfl : chained = false := by simpa [Stmt.isBranch] using hchained
      rw [statement] at hrun
      obtain ⟨left, u, hu, hrun⟩ := bind_eq_ok.mp hrun
      obtain ⟨texts₁, hleft, rfl⟩ := render_ok hu
      obtain ⟨right, v, hv, hline⟩ := bind_eq_ok.mp hrun
      obtain ⟨texts₂, hright, rfl⟩ := render_ok hv
      cases hline
      refine ⟨.line (assignment left right), texts₂, ?_, ?_⟩
      · rw [Rendering.code]
        exact Rendering.bind_eq_ok.mpr ⟨left, texts₁, hleft,
          Rendering.bind_eq_ok.mpr ⟨right, texts₂, hright, rfl⟩⟩
      · exact (s.wrote_texts texts₂).trans ((s.withTexts texts₂).wrote_statement ⟨_, rfl⟩)
  | .eval e, hchained, s, t, hrun => by
      obtain rfl : chained = false := by simpa [Stmt.isBranch] using hchained
      rw [statement] at hrun
      obtain ⟨text, texts, htext, written⟩ := wrote_renderedLine (fun _ => ⟨_, rfl⟩) hrun
      refine ⟨.line (text ++ ";"), texts, ?_, written⟩
      rw [Rendering.code]
      exact Rendering.bind_eq_ok.mpr ⟨text, texts, htext, rfl⟩
  | .branch cond thenBody elseBody, hchained, s, t, hrun => by
      rw [statement] at hrun
      obtain ⟨c, u, hu, hrun⟩ := bind_eq_ok.mp hrun
      obtain ⟨texts₁, hcond, rfl⟩ := render_ok hu
      obtain ⟨_, v, hhead, hrun⟩ := bind_eq_ok.mp hrun
      cases hhead
      obtain ⟨_, w, hthen, helse⟩ := bind_eq_ok.mp hrun
      obtain ⟨thens, texts₂, hthens, writtenThen⟩ :=
        wrote_branch (wrote_statements returnTy false thenBody (by simp)) hthen
      have head := (s.withTexts texts₁).wrote_line (headText (keyword chained) c)
      rw [ofText_head] at head
      have soFar := ((s.wrote_texts texts₁).trans head).trans writtenThen
      obtain ⟨elses, texts₃, helses, writtenElse⟩ := wrote_elsePart
        (fun hchain => wrote_statements returnTy true elseBody fun _ => hchain)
        (wrote_statements returnTy false elseBody (by simp)) helse
      rw [soFar.known, soFar.defaultTexts] at helses
      refine ⟨.branch c thens elses, texts₃, ?_, ?_⟩
      · rw [Rendering.code]
        exact Rendering.bind_eq_ok.mpr ⟨c, texts₁, hcond, Rendering.bind_eq_ok.mpr
          ⟨thens, texts₂, hthens, Rendering.bind_eq_ok.mpr ⟨elses, texts₃, helses, rfl⟩⟩⟩
      · have written := soFar.trans writtenElse
        simpa [Code.tokens, elseTokens] using written
  | .loop cond body, hchained, s, t, hrun => by
      obtain rfl : chained = false := by simpa [Stmt.isBranch] using hchained
      rw [statement] at hrun
      obtain ⟨c, u, hu, hrun⟩ := bind_eq_ok.mp hrun
      obtain ⟨texts₁, hcond, rfl⟩ := render_ok hu
      obtain ⟨_, v, hhead, hrun⟩ := bind_eq_ok.mp hrun
      cases hhead
      obtain ⟨w, hbody, rfl⟩ := braced_ok hrun
      obtain ⟨cs, texts₂, hcs, writtenBody⟩ :=
        wrote_statements returnTy false body (by simp) _ _ hbody
      refine ⟨.loop c cs, texts₂, ?_, ?_⟩
      · rw [Rendering.code]
        exact Rendering.bind_eq_ok.mpr ⟨c, texts₁, hcond,
          Rendering.bind_eq_ok.mpr ⟨cs, texts₂, hcs, rfl⟩⟩
      · have head := (s.withTexts texts₁).wrote_line (headText "while" c)
        rw [Token.ofText_while] at head
        have written := ((s.wrote_texts texts₁).trans head).trans writtenBody.braced
        dsimp only
        rw [Code.tokens]
        exact written
  | .ret none, hchained, s, t, hrun => by
      obtain rfl : chained = false := by simpa [Stmt.isBranch] using hchained
      rw [statement] at hrun
      cases hrun
      refine ⟨.line "return;", s.tables.defaultTexts, by rw [Rendering.code]; rfl, ?_⟩
      exact s.wrote_statement ⟨"return", rfl⟩
  | .ret (some value), hchained, s, t, hrun => by
      obtain rfl : chained = false := by simpa [Stmt.isBranch] using hchained
      rw [statement] at hrun
      obtain ⟨text, texts, htext, written⟩ := wrote_renderedLine (fun _ => ⟨_, rfl⟩) hrun
      refine ⟨.line ("return " ++ text ++ ";"), texts, ?_, written⟩
      rw [Rendering.code]
      exact Rendering.bind_eq_ok.mpr ⟨text, texts, htext, rfl⟩
  | .unresolved, hchained, s, t, hrun => by
      rw [statement] at hrun
      cases hrun

theorem wrote_statements (returnTy : Ty) (chained : Bool) : (ss : List Stmt) →
    (chained → continuesChain ss) → ∀ s t,
    statements returnTy (keyword chained) ss ctx s = (.ok (), t) →
      WroteAs ctx (Rendering.codes returnTy ss) (fun cs => lead chained ++ Code.allTokens cs) s t
  | [], hchained, s, t, hrun => by
      obtain rfl : chained = false := by simpa [continuesChain] using hchained
      rw [statements] at hrun
      cases hrun
      exact ⟨[], _, by rw [Rendering.codes]; rfl, s.wrote_texts _⟩
  | st :: rest, hchained, s, t, hrun => by
      rw [statements] at hrun
      obtain ⟨_, u, hfirst, hrest⟩ := bind_eq_ok.mp hrun
      have hst : chained → st.isBranch := fun h => by
        have := hchained h
        cases rest with
        | nil => exact this
        | cons next others => cases this
      obtain ⟨c, texts₁, hc, first⟩ := wrote_statement returnTy chained st hst s u hfirst
      have hlater : WroteAs ctx (Rendering.codes returnTy rest) Code.allTokens u t := by
        cases chained with
        | false => exact wrote_statements returnTy false rest (by simp) u t hrest
        | true =>
            obtain rfl : rest = [] := by
              cases rest with
              | nil => rfl
              | cons next others => cases hchained rfl
            cases hrest
            exact ⟨[], _, by rw [Rendering.codes]; rfl, t.wrote_texts _⟩
      obtain ⟨cs, texts₂, hcs, later⟩ := hlater
      rw [first.known, first.defaultTexts] at hcs
      refine ⟨c :: cs, texts₂, ?_, ?_⟩
      · rw [Rendering.codes]
        exact Rendering.bind_eq_ok.mpr ⟨c, texts₁, hc, Rendering.bind_eq_ok.mpr
          ⟨cs, texts₂, hcs, rfl⟩⟩
      · dsimp only
        rw [Code.allTokens, ← List.append_assoc]
        exact first.trans later
end

/-- What statements write is read with their own nesting exactly when no branch before an `else`
ends open, and it has no two readings. -/
theorem nesting_read_back_iff {returnTy : Ty} {ss : List Stmt}
    (hrun : statements returnTy "if" ss ctx s = (.ok (), t)) :
    ∃ cs texts pieces,
      Rendering.codes returnTy ss (ctx.scope s.tables.known false) s.tables.defaultTexts =
        (.ok cs, texts) ∧
      t.body.pieces = s.body.pieces ++ pieces ∧
      (Reads .list (pieces.toList.flatMap Token.ofPiece) (Code.allOutlines cs) [] ↔
        Nesting.allClear (Stmt.nestings ss)) ∧
      ∀ outlines outlines', Reads .list (pieces.toList.flatMap Token.ofPiece) outlines [] →
        Reads .list (pieces.toList.flatMap Token.ofPiece) outlines' [] → outlines = outlines' := by
  obtain ⟨cs, texts, hcs, pieces, rfl, htokens⟩ :=
    wrote_statements returnTy false ss (by simp) s t hrun
  refine ⟨cs, texts, pieces, hcs, rfl, ?_, fun outlines outlines' h h' => (h.unique h').1⟩
  rw [htokens, ← Rendering.nestings_of_codes _ _ _ _ _ hcs]
  exact Code.reads_iff_allClear cs

section
def flag (i : Nat) : Expr := .name (.scalar .bool) ⟨i⟩

def number (i : Int32) : Expr := .literal (.scalar .int) (.scalar (.int i))

def flagContext : ModuleContext where
  program :=
    ⟨#[⟨"a", none, .var (.scalar .bool) false⟩, ⟨"b", none, .var (.scalar .bool) false⟩], #[]⟩
  target := .standard
  module := ⟨0⟩

def emptyState : EmissionState := ⟨.empty, .empty, .empty⟩

def elseIfChain : List Stmt :=
  [.branch (flag 0) [.ret none] [.branch (flag 1) [.ret none] [.ret none]]]

theorem else_if_chain_read_back : ∃ cs texts pieces,
    Rendering.codes .void elseIfChain (flagContext.scope .empty false) .empty = (.ok cs, texts) ∧
      (statements .void "if" elseIfChain flagContext emptyState).2.body.pieces = pieces ∧
      Reads .list (pieces.toList.flatMap Token.ofPiece) (Code.allOutlines cs) [] := by
  have hrun : statements .void "if" elseIfChain flagContext emptyState =
      (.ok (), (statements .void "if" elseIfChain flagContext emptyState).2) := Prod.ext rfl rfl
  obtain ⟨cs, texts, pieces, hcs, hpieces, hreads, -⟩ := nesting_read_back_iff hrun
  refine ⟨cs, texts, pieces, hcs, ?_, hreads.mpr (by decide)⟩
  rw [hpieces]
  simp [emptyState, Text.Writer.empty]

def danglingElse : List Stmt :=
  [.branch (flag 0) [.branch (flag 1) [.ret (some (number 1))] []] [.ret (some (number 2))]]

def danglingRun : Except Failure Unit × EmissionState :=
  statements (.scalar .int) "if" danglingElse flagContext emptyState

def danglingTokens : List Token := danglingRun.2.body.pieces.toList.flatMap Token.ofPiece

/-- The `else` part of the outer conditional is read as that of the inner one. -/
theorem dangling_else_read_inside :
    danglingRun.1 = .ok () ∧
      Reads .list danglingTokens [.cond "if ( a )".toList [.cond "if ( b )".toList
        [.line "return 1;".toList] (some [.line "return 2;".toList])] none] [] ∧
      ∀ cs texts, Rendering.codes (.scalar .int) danglingElse (flagContext.scope .empty false)
        .empty = (.ok cs, texts) → ¬Reads .list danglingTokens (Code.allOutlines cs) [] := by
  have tokens : danglingTokens = [.ifHead "if ( a )".toList, .ifHead "if ( b )".toList,
      .line "return 1;".toList, .elseKeyword, .line "return 2;".toList] := rfl
  have code : Rendering.codes (.scalar .int) danglingElse (flagContext.scope .empty false) .empty =
      (.ok [.branch "a" [.branch "b" [.line "return 1;"] []] [.line "return 2;"]], .empty) := rfl
  have misread : Reads .list danglingTokens [.cond "if ( a )".toList [.cond "if ( b )".toList
      [.line "return 1;".toList] (some [.line "return 2;".toList])] none] [] := by
    rw [tokens]
    refine .cons (.cond (.bare (by simp) ?_) (by simp)) (.nil (by simp))
    exact .condElse (.bare (by simp) .line) (.bare (by simp) .line)
  refine ⟨rfl, misread, fun cs texts hcs hreads => ?_⟩
  rw [code] at hcs
  cases hcs
  have same := (hreads.unique misread).1
  simp [Code.allOutlines, Code.outlines] at same

end

end Emission
end ColorLowering
