import Mathlib.Data.List.Forall2
import ColorLowering.Expr.Rendering
import ColorLowering.Proofs.Reading.Reader
import ColorLowering.Proofs.Reading.Spacing

/-!
# Operands

A text is an operand when its tokens, wherever an operand may come, leave the reader after one tree
with nothing but prefixes opened before it. What is put together from operands by parentheses,
brackets, lists and prefixes is an operand again, and reads as the tree put together from theirs.
-/
namespace ColorLowering.Cpp

def prefixed (ops : List UnaryOp) (t : Tree) : Tree := ops.foldl (fun t op => .unary op t) t

namespace Reader

variable {r : Reader} {stack : List Frame} {t : Tree} {ts us : List Token}

theorem run_append : r.run (ts ++ us) = (r.run ts).bind fun r' => r'.run us := by
  rw [run, List.foldlM_append]
  rfl

theorem run_cons (token : Token) : r.run (token :: ts) = (r.step token).bind fun r' => r'.run ts :=
  List.foldlM_cons ..

theorem run_append_of_run {r' : Reader} (h : r.run ts = some r') :
    r.run (ts ++ us) = r'.run us := by
  rw [run_append, h]
  rfl

theorem run_cons_of_step {r' : Reader} {token : Token} (h : r.step token = some r') :
    r.run (token :: ts) = r'.run ts := by
  rw [run_cons, h]
  rfl

theorem settle_unary (bound : Nat) (ops : List UnaryOp) :
    settle bound (ops.map .unary ++ stack) t = settle bound stack (prefixed ops t) := by
  induction ops generalizing t with
  | nil => rfl
  | cons op rest ih =>
      rw [List.map_cons, List.cons_append, settle, ih]
      rfl

end Reader

/-- Wherever an operand may come, the tokens are one: prefixes and what they stand before. -/
def Reads (ts : List Token) (ops : List UnaryOp) (base : Tree) : Prop :=
  ∀ stack, Reader.run ⟨stack, .operand⟩ ts = some ⟨ops.map .unary ++ stack, .after base⟩

/-- The text is an operand: prefixes and what they stand before. -/
structure Operand (text : String) (ops : List UnaryOp) (base : Tree) : Prop where
  tokens : ∃ ts, lex text.toList = some ts ∧ Reads ts ops base
  first : ∃ c rest, text.toList = c :: rest ∧ leads c
  notVector : base.isVector = false

def ReadsAs (text : String) (tree : Tree) : Prop :=
  ∃ ops base, Operand text ops base ∧ tree = prefixed ops base

/-- The text is an operand without prefixes, and a member of it may be taken. -/
structure Base (text : String) (tree : Tree) : Prop extends Operand text [] tree where
  dot : ∀ ts b us, lex text.toList = some ts → lex ('.' :: b) = some us →
    lex (text.toList ++ '.' :: b) = some (ts ++ us)

theorem Base.readsAs {text : String} {tree : Tree} (h : Base text tree) : ReadsAs text tree :=
  ⟨[], tree, h.toOperand, rfl⟩

theorem Reads.parse {ts : List Token} {ops : List UnaryOp} {base : Tree} (h : Reads ts ops base) :
    parse ts = some (prefixed ops base) := by
  have settled : settle 0 (ops.map .unary ++ []) base = ([], prefixed ops base) :=
    Reader.settle_unary 0 ops
  rw [Cpp.parse, h [], Option.bind_some]
  simp only [Reader.result, settled]

/-- A text that is an operand reads as one tree. -/
theorem ReadsAs.read {text : String} {tree : Tree} (h : ReadsAs text tree) :
    read text = some tree := by
  obtain ⟨ops, base, ⟨⟨ts, hlex, hreads⟩, -, -⟩, rfl⟩ := h
  rw [Cpp.read, hlex, Option.bind_some, hreads.parse]

/-- An operand and the sign after it, where that is no operator and opens nothing. -/
theorem Reads.run_end {ts : List Token} {ops : List UnaryOp} {base : Tree}
    (h : Reads ts ops base) {stack : List Frame} {s : Sign}
    (hs : ∀ stack t, Reader.readAfter stack t s = Reader.readEnd (settle 0 stack t) s)
    {rest : List Token} {r : Reader}
    (hend : Reader.readEnd (settle 0 stack (prefixed ops base)) s = some r) :
    Reader.run ⟨stack, .operand⟩ (ts ++ .sign s :: rest) = r.run rest := by
  rw [Reader.run_append_of_run (h stack)]
  apply Reader.run_cons_of_step
  change Reader.readAfter _ base s = _
  rw [hs, Reader.settle_unary, hend]

/-! ### Lists -/

/-- A bracket that holds a list. -/
structure Enclosure where
  frame : List Tree → Frame
  close : Sign
  mode : List Tree → Mode
  settled : ∀ done stack t, settle 0 (frame done :: stack) t = (frame done :: stack, t)
  ends : ∀ stack t, Reader.readAfter stack t close = Reader.readEnd (settle 0 stack t) close
  next : ∀ done stack t, Reader.readEnd (frame done :: stack, t) .comma =
    some ⟨frame (done ++ [t]) :: stack, .operand⟩
  last : ∀ done stack t, Reader.readEnd (frame done :: stack, t) close =
    some ⟨stack, mode (done ++ [t])⟩
  empty : ∀ stack, Reader.readOperand (frame [] :: stack) (.sign close) = some ⟨stack, mode []⟩

def Enclosure.args (head : Tree) : Enclosure where
  frame := .args head
  close := .closeParen
  mode args := .after (.apply head args)
  settled _ _ _ := rfl
  ends _ _ := rfl
  next _ _ _ := rfl
  last _ _ _ := rfl
  empty _ := rfl

def Enclosure.items (head : Option Tree) : Enclosure where
  frame := .items head
  close := .closeBrace
  mode := Reader.closed head
  settled _ _ _ := rfl
  ends _ _ := rfl
  next _ _ _ := rfl
  last _ _ _ := rfl
  empty _ := rfl

/-- Inside the bracket the tokens are one item. -/
def Enclosure.Holds (e : Enclosure) (ts : List Token) (tree : Tree) : Prop :=
  ∀ done stack s, s = .comma ∨ s = e.close → ∀ rest r,
    Reader.readEnd (e.frame done :: stack, tree) s = some r →
    Reader.run ⟨e.frame done :: stack, .operand⟩ (ts ++ .sign s :: rest) = r.run rest

theorem Reads.holds {ts : List Token} {ops : List UnaryOp} {base : Tree} (h : Reads ts ops base)
    (e : Enclosure) : e.Holds ts (prefixed ops base) := by
  intro done stack s hs rest r hend
  have ends : ∀ stack t, Reader.readAfter stack t s = Reader.readEnd (settle 0 stack t) s := by
    rcases hs with rfl | rfl
    · exact fun _ _ => rfl
    · exact e.ends
  exact h.run_end ends (by rw [e.settled, hend])

def commaTokens (items : List (List Token)) : List Token := [Token.sign .comma].intercalate items

theorem Enclosure.run_items (e : Enclosure) {items : List (List Token)} {trees : List Tree}
    (h : List.Forall₂ e.Holds items trees) (hne : trees ≠ []) (done : List Tree)
    (stack : List Frame) (rest : List Token) :
    Reader.run ⟨e.frame done :: stack, .operand⟩ (commaTokens items ++ .sign e.close :: rest) =
      Reader.run ⟨stack, e.mode (done ++ trees)⟩ rest := by
  induction h generalizing done with
  | nil => exact absurd rfl hne
  | @cons ts tree items trees hfirst hrest ih =>
      cases hrest with
      | nil =>
          rw [commaTokens, List.intercalate_singleton]
          exact hfirst done stack _ (.inr rfl) rest _ (e.last done stack tree)
      | @cons ts' tree' items trees hsecond hothers =>
          have later := ih (by simp) (done ++ [tree])
          rw [List.append_assoc, List.singleton_append] at later
          rw [← later, commaTokens, List.intercalate_cons_cons, List.append_assoc,
            List.append_assoc]
          exact hfirst done stack _ (.inl rfl) _ _ (e.next done stack tree)

theorem Enclosure.run_list (e : Enclosure) {items : List (List Token)} {trees : List Tree}
    (h : List.Forall₂ e.Holds items trees) (stack : List Frame) (rest : List Token) :
    Reader.run ⟨e.frame [] :: stack, .operand⟩ (commaTokens items ++ .sign e.close :: rest) =
      Reader.run ⟨stack, e.mode trees⟩ rest := by
  cases h with
  | nil => exact Reader.run_cons_of_step (e.empty stack)
  | cons hfirst hrest => exact e.run_items (.cons hfirst hrest) (by simp) [] stack rest

/-! ### Texts -/

theorem lex_intercalate {separator : List Char} (blanks : List Char)
    (hseparator : separator = ',' :: blanks) (hblanks : blanks.all isBlank) {items : List String}
    {tokens : List (List Token)}
    (h : List.Forall₂ (fun item ts => lex item.toList = some ts) items tokens) :
    lex ((String.ofList separator).intercalate items).toList = some (commaTokens tokens) := by
  have comma {b : List Char} {us : List Token} (hb : lex b = some us) :
      lex (separator ++ b) = some (.sign .comma :: us) := by
    rw [hseparator]
    apply lex_alone (by decide) rfl
    clear hseparator
    induction blanks with
    | nil => exact hb
    | cons c rest ih =>
        rw [List.all_cons, Bool.and_eq_true] at hblanks
        exact (lex_blank hblanks.1).trans (ih hblanks.2)
  induction h with
  | nil => rfl
  | @cons item ts items tokens hitem hrest ih =>
      cases hrest with
      | nil =>
          rw [String.intercalate_singleton, commaTokens, List.intercalate_singleton]
          exact hitem
      | @cons item' ts' items tokens hnext hothers =>
          rw [String.intercalate_cons_cons, commaTokens, List.intercalate_cons_cons,
            String.toList_append, String.toList_append, String.toList_ofList,
            List.append_assoc, List.append_assoc]
          have later := comma ih
          rw [hseparator] at later ⊢
          exact lex_append_separator (by decide) hitem later

theorem lex_commaSeparated {items : List String} {tokens : List (List Token)}
    (h : List.Forall₂ (fun item ts => lex item.toList = some ts) items tokens) :
    lex (commaSeparated items).toList = some (commaTokens tokens) :=
  lex_intercalate [' '] rfl rfl h

theorem lex_opened {content : String} {ts : List Token} (h : lex content.toList = some ts) :
    lex ('(' :: ' ' :: (content.toList ++ [' '])) = some (.sign .openParen :: ts) := by
  have closing : lex [' '] = some [] := by decide
  have inner := lex_append_separator (c := ' ') (by decide) h closing
  rw [List.append_nil] at inner
  exact lex_alone (by decide) rfl ((lex_blank rfl).trans inner)

theorem tokens_of_readsAs {items : List String} {trees : List Tree}
    (h : List.Forall₂ ReadsAs items trees) :
    ∃ tokens, List.Forall₂ (fun item ts => lex item.toList = some ts) items tokens ∧
      ∀ e : Enclosure, List.Forall₂ e.Holds tokens trees := by
  induction h with
  | nil => exact ⟨[], .nil, fun _ => .nil⟩
  | cons hitem _ ih =>
      obtain ⟨tokens, hlex, hholds⟩ := ih
      obtain ⟨ops, base, ⟨⟨ts, hts, hreads⟩, -, -⟩, rfl⟩ := hitem
      exact ⟨ts :: tokens, .cons hts hlex, fun e => .cons (hreads.holds e) (hholds e)⟩

end ColorLowering.Cpp
