/-!
# Reading statements

A text of statements is a sequence of tokens: braces, heads, `else`, and whole lines. An `else`
belongs to the nearest conditional before it that has none yet, so a conditional can be read without
an `else` part only where none follows. There is at most one reading.
-/
namespace ColorLowering

inductive Token where
  | openBrace
  | closeBrace
  | elseKeyword
  | line (text : List Char)
  | ifHead (text : List Char)
  | whileHead (text : List Char)
  deriving DecidableEq

/-- Statements as their nesting is read. -/
inductive Outline where
  | line (text : List Char)
  | block (body : List Outline)
  | cond (head : List Char) (thenBody : List Outline) (elseBody : Option (List Outline))
  | loop (head : List Char) (body : List Outline)

inductive Part where
  | statement
  | body
  | list

/-- `Reads part tokens outlines rest`: a part of a text that begins with `tokens` is read as
`outlines`, and `rest` is left. -/
inductive Reads : Part → List Token → List Outline → List Token → Prop
  | line {text rest} : Reads .statement (.line text :: rest) [.line text] rest
  | block {tokens body rest} : Reads .list tokens body (.closeBrace :: rest) →
      Reads .statement (.openBrace :: tokens) [.block body] rest
  | loop {head tokens body rest} : Reads .body tokens body rest →
      Reads .statement (.whileHead head :: tokens) [.loop head body] rest
  | cond {head tokens thenBody rest} : Reads .body tokens thenBody rest →
      rest.head? ≠ some .elseKeyword →
      Reads .statement (.ifHead head :: tokens) [.cond head thenBody none] rest
  | condElse {head tokens thenBody middle elseBody rest} :
      Reads .body tokens thenBody (.elseKeyword :: middle) → Reads .body middle elseBody rest →
      Reads .statement (.ifHead head :: tokens) [.cond head thenBody (some elseBody)] rest
  | bare {tokens outlines rest} : tokens.head? ≠ some .openBrace →
      Reads .statement tokens outlines rest → Reads .body tokens outlines rest
  | braced {tokens outlines rest} : Reads .list tokens outlines (.closeBrace :: rest) →
      Reads .body (.openBrace :: tokens) outlines rest
  | nil {tokens} : (∀ token ∈ tokens.head?, token = .closeBrace) → Reads .list tokens [] tokens
  | cons {tokens first middle others rest} : Reads .statement tokens [first] middle →
      Reads .list middle others rest → Reads .list tokens (first :: others) rest

namespace Reads

/-- No statement begins with a closing brace, or where the text ends. -/
theorem not_statement_of_stops {tokens rest : List Token} {outlines : List Outline}
    (hstops : ∀ token ∈ tokens.head?, token = .closeBrace) :
    ¬Reads .statement tokens outlines rest := by
  intro h
  cases h <;> simp at hstops

theorem unique {part : Part} {tokens rest rest' : List Token} {outlines outlines' : List Outline}
    (h : Reads part tokens outlines rest) (h' : Reads part tokens outlines' rest') :
    outlines = outlines' ∧ rest = rest' := by
  induction h generalizing outlines' rest' with
  | line =>
      cases h'
      exact ⟨rfl, rfl⟩
  | block _ ih =>
      cases h' with
      | block hbody =>
          obtain ⟨rfl, hrest⟩ := ih hbody
          cases hrest
          exact ⟨rfl, rfl⟩
  | loop _ ih =>
      cases h' with
      | loop hbody =>
          obtain ⟨rfl, rfl⟩ := ih hbody
          exact ⟨rfl, rfl⟩
  | cond _ hnone ih =>
      cases h' with
      | cond hthen _ =>
          obtain ⟨rfl, rfl⟩ := ih hthen
          exact ⟨rfl, rfl⟩
      | condElse hthen _ =>
          obtain ⟨-, rfl⟩ := ih hthen
          simp at hnone
  | condElse _ _ ihThen ihElse =>
      cases h' with
      | cond hthen hnone =>
          obtain ⟨-, rfl⟩ := ihThen hthen
          simp at hnone
      | condElse hthen helse =>
          obtain ⟨rfl, hmiddle⟩ := ihThen hthen
          cases hmiddle
          obtain ⟨rfl, rfl⟩ := ihElse helse
          exact ⟨rfl, rfl⟩
  | bare hopen _ ih =>
      cases h' with
      | bare _ hstatement => exact ih hstatement
      | braced _ => simp at hopen
  | braced _ ih =>
      cases h' with
      | bare hopen _ => simp at hopen
      | braced hlist =>
          obtain ⟨rfl, hrest⟩ := ih hlist
          cases hrest
          exact ⟨rfl, rfl⟩
  | nil hstops =>
      cases h' with
      | nil _ => exact ⟨rfl, rfl⟩
      | cons hfirst _ => exact absurd hfirst (not_statement_of_stops hstops)
  | cons hfirst _ ihFirst ihRest =>
      cases h' with
      | nil hstops => exact absurd hfirst (not_statement_of_stops hstops)
      | cons hfirst' hrest' =>
          obtain ⟨hsame, rfl⟩ := ihFirst hfirst'
          cases hsame
          obtain ⟨rfl, rfl⟩ := ihRest hrest'
          exact ⟨rfl, rfl⟩

end Reads
end ColorLowering
