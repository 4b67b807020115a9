import ColorLowering.Module.Statements
import ColorLowering.Proofs.Statements.Nesting

/-!
# The code of statements

The code of a statement is the statement with its texts in place of its expressions, nested as the
statement is. The lines that initialize a variable end in semicolons.
-/
namespace ColorLowering

namespace Stmt

mutual
def nesting : Stmt → Nesting
  | .declare .. => .declaration
  | .branch _ thenBody elseBody => .branch (nestings thenBody) (nestings elseBody)
  | .loop _ body => .loop (nestings body)
  | _ => .line

def nestings : List Stmt → List Nesting
  | [] => []
  | s :: rest => s.nesting :: nestings rest
end

def isBare : List Stmt → Bool
  | [s] => !s.isDeclaration
  | _ => false

end Stmt

namespace Rendering

def declarationCode (d : Declaration) (name : String) (ty : Ty) : Option Expr → Rendering Code
  | none => return .declare (d.text ++ ";") none
  | some init =>
    match d.strategy with
    | none => throw (.unresolvedStrategy name)
    | some strategy => do
      match ← initializer strategy ty init name with
      | .inline text => return .declare (d.text ++ text) none
      | .deferred statements => return .declare (d.text ++ ";") (some statements)

def localCode (symbol : SymbolId) (init : Option Expr) : Rendering Code := do
  let scope ← read
  let s := scope.program.symbol symbol
  let name := Text.unqualified s.name
  declarationCode (scope.target.declare name s.ty (.object !s.isWritable)) name s.ty init

mutual
def code (returnTy : Ty) : Stmt → Rendering Code
  | .declare symbol init => localCode symbol init
  | .assign target value => do
    let t ← target.render
    let v ← value.renderAs target.ty
    return .line (assignment t v)
  | .eval e => do return .line ((← e.render) ++ ";")
  | .branch cond thenBody elseBody => do
    let c ← cond.renderAs (.scalar .bool)
    let t ← codes returnTy thenBody
    let e ← codes returnTy elseBody
    return .branch c t e
  | .loop cond body => do
    let c ← cond.renderAs (.scalar .bool)
    let b ← codes returnTy body
    return .loop c b
  | .ret none => return .line "return;"
  | .ret (some value) => do return .line ("return " ++ (← value.renderAs returnTy) ++ ";")
  | .unresolved => throw .unresolved

def codes (returnTy : Ty) : List Stmt → Rendering (List Code)
  | [] => pure []
  | s :: rest => do
    let c ← code returnTy s
    let cs ← codes returnTy rest
    return c :: cs
end

variable {scope : Scope} {texts texts' : DefaultTexts}

theorem localCode_ok {symbol : SymbolId} {init : Option Expr} {c : Code}
    (hrun : localCode symbol init scope texts = (.ok c, texts')) :
    ∃ text fill, c = .declare text fill := by
  obtain ⟨scope', texts₁, hread, hrun⟩ := bind_eq_ok.mp hrun
  cases hread
  generalize scope.target.declare _ _ _ = d at hrun
  obtain ⟨text, strategy?⟩ := d
  cases init with
  | none =>
      cases hrun
      exact ⟨_, _, rfl⟩
  | some init =>
      cases strategy? with
      | none => cases hrun
      | some strategy =>
          obtain ⟨i, texts₂, -, hdone⟩ := bind_eq_ok.mp hrun
          cases i with
          | inline text =>
              cases hdone
              exact ⟨_, _, rfl⟩
          | deferred statements =>
              cases hdone
              exact ⟨_, _, rfl⟩

mutual
theorem nesting_of_code (returnTy : Ty) : (s : Stmt) → ∀ texts texts' c,
    code returnTy s scope texts = (.ok c, texts') → c.nesting = s.nesting
  | .declare symbol init, texts, texts', c, hrun => by
      rw [code] at hrun
      obtain ⟨text, fill, rfl⟩ := localCode_ok hrun
      rw [Code.nesting, Stmt.nesting]
  | .assign target value, texts, texts', c, hrun => by
      rw [code] at hrun
      obtain ⟨t, texts₁, -, hrun⟩ := bind_eq_ok.mp hrun
      obtain ⟨v, texts₂, -, hdone⟩ := bind_eq_ok.mp hrun
      cases hdone
      simp only [Code.nesting, Stmt.nesting]
  | .eval e, texts, texts', c, hrun => by
      rw [code] at hrun
      obtain ⟨t, texts₁, -, hdone⟩ := bind_eq_ok.mp hrun
      cases hdone
      simp only [Code.nesting, Stmt.nesting]
  | .branch cond thenBody elseBody, texts, texts', c, hrun => by
      rw [code] at hrun
      obtain ⟨t, texts₁, -, hrun⟩ := bind_eq_ok.mp hrun
      obtain ⟨thens, texts₂, hthen, hrun⟩ := bind_eq_ok.mp hrun
      obtain ⟨elses, texts₃, helse, hdone⟩ := bind_eq_ok.mp hrun
      cases hdone
      rw [Code.nesting, Stmt.nesting, nestings_of_codes returnTy thenBody _ _ _ hthen,
        nestings_of_codes returnTy elseBody _ _ _ helse]
  | .loop cond body, texts, texts', c, hrun => by
      rw [code] at hrun
      obtain ⟨t, texts₁, -, hrun⟩ := bind_eq_ok.mp hrun
      obtain ⟨inside, texts₂, hbody, hdone⟩ := bind_eq_ok.mp hrun
      cases hdone
      rw [Code.nesting, Stmt.nesting, nestings_of_codes returnTy body _ _ _ hbody]
  | .ret none, texts, texts', c, hrun => by
      rw [code] at hrun
      cases hrun
      simp only [Code.nesting, Stmt.nesting]
  | .ret (some value), texts, texts', c, hrun => by
      rw [code] at hrun
      obtain ⟨t, texts₁, -, hdone⟩ := bind_eq_ok.mp hrun
      cases hdone
      simp only [Code.nesting, Stmt.nesting]
  | .unresolved, texts, texts', c, hrun => by
      rw [code] at hrun
      cases hrun

theorem nestings_of_codes (returnTy : Ty) : (ss : List Stmt) → ∀ texts texts' cs,
    codes returnTy ss scope texts = (.ok cs, texts') → Code.nestings cs = Stmt.nestings ss
  | [], texts, texts', cs, hrun => by
      rw [codes] at hrun
      cases hrun
      rw [Code.nestings, Stmt.nestings]
  | s :: rest, texts, texts', cs, hrun => by
      rw [codes] at hrun
      obtain ⟨c, texts₁, hc, hrun⟩ := bind_eq_ok.mp hrun
      obtain ⟨others, texts₂, hothers, hdone⟩ := bind_eq_ok.mp hrun
      cases hdone
      rw [Code.nestings, Stmt.nestings, nesting_of_code returnTy s _ _ _ hc,
        nestings_of_codes returnTy rest _ _ _ hothers]
end

end Rendering

def EndsStatement (s : String) : Prop := ∃ start, s = start ++ ";"

theorem Fill.endsStatement_text (f : Fill) : EndsStatement f.text := by
  cases f with
  | resize part size => exact ⟨_, rfl⟩
  | assign part value => exact ⟨_, rfl⟩
  | construct part spelling args => exact ⟨_, rfl⟩

def Initializer.lines : Initializer → List String
  | .inline text => [text]
  | .deferred statements => statements

namespace Rendering

variable {scope : Scope} {texts texts' : DefaultTexts}

theorem endsStatement_of_fill {ty : Ty} {object : String} {leaves : List Expr}
    {statements : List String}
    (hrun : aggregate ty object leaves (·.fillStatements ty object) scope texts =
      (.ok statements, texts')) : ∀ line ∈ statements, EndsStatement line := by
  obtain ⟨leafTexts, texts₁, -, hrun⟩ := bind_eq_ok.mp hrun
  obtain ⟨scope', texts₂, hread, hrun⟩ := bind_eq_ok.mp hrun
  cases hread
  unfold layOut at hrun
  cases hlayout : (scope.target.fillStatements ty object).run leafTexts with
  | none =>
      rw [hlayout] at hrun
      cases hrun
  | some laid =>
      rw [hlayout] at hrun
      cases hrun
      simp only [Target.fillStatements, StateT.run_bind, StateT.run_pure, Option.bind_eq_bind,
        Option.bind_eq_some_iff] at hlayout
      obtain ⟨⟨fills, rest⟩, -, hdone⟩ := hlayout
      cases hdone
      intro line hline
      obtain ⟨f, -, rfl⟩ := List.mem_map.mp hline
      exact f.endsStatement_text

theorem endsStatement_of_initializer {strategy : Strategy} {ty : Ty} {init : Expr} {object : String}
    {i : Initializer} (hrun : initializer strategy ty init object scope texts = (.ok i, texts')) :
    ∀ line ∈ i.lines, EndsStatement line := by
  obtain ⟨scope', texts₁, hread, hrun⟩ := bind_eq_ok.mp hrun
  cases hread
  have single {line : String} (h : EndsStatement line) :
      ∀ other ∈ [line], EndsStatement other := by
    intro other hother
    rw [List.mem_singleton.mp hother]
    exact h
  split at hrun
  · obtain ⟨text, texts₂, -, hdone⟩ := bind_eq_ok.mp hrun
    cases hdone
    exact single ⟨_, rfl⟩
  · split at hrun
    · obtain ⟨args, texts₂, -, hdone⟩ := bind_eq_ok.mp hrun
      cases hdone
      exact single ⟨_, rfl⟩
    · obtain ⟨statements, texts₂, hfill, hdone⟩ := bind_eq_ok.mp hrun
      cases hdone
      exact endsStatement_of_fill hfill
  · obtain ⟨statements, texts₂, hfill, hdone⟩ := bind_eq_ok.mp hrun
    cases hdone
    exact endsStatement_of_fill hfill
  all_goals
    obtain ⟨text, texts₂, -, hdone⟩ := bind_eq_ok.mp hrun
    cases hdone
    exact single ⟨_, rfl⟩

end Rendering

end ColorLowering
