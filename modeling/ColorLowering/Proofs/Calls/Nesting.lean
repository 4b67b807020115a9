import ColorLowering.Expr.Rendering

/-!
# Brackets and strings of a text

A scan of a text knows which brackets are open and whether it is in a string. The text is cut into
pieces at the commas that stand outside both. A text that closes what it opens, and nothing else,
and has no comma outside stays in one piece wherever it is put.
-/
namespace ColorLowering.Text

inductive Quoting where
  | code | quoted | escaped
  deriving DecidableEq

/-- What is known of the text before some point: what closes the brackets that are open, the
innermost first, and whether a string is. -/
structure Nesting where
  awaited : List Char
  quoting : Quoting
  deriving DecidableEq

def closer? (c : Char) : Option Char :=
  if c = '(' then some ')' else if c = '[' then some ']' else if c = '\x7b' then some '\x7d'
  else none

def isCloser (c : Char) : Bool := c = ')' || c = ']' || c = '\x7d'

namespace Nesting

def start : Nesting := ⟨[], .code⟩

/-- One character of code further, unless it closes what is not open or is a comma outside all
brackets. -/
def stepCode (awaited : List Char) (c : Char) : Option Nesting :=
  match closer? c with
  | some close => some ⟨close :: awaited, .code⟩
  | none =>
    if isCloser c then if awaited.head? = some c then some ⟨awaited.tail, .code⟩ else none
    else if c = '"' then some ⟨awaited, .quoted⟩
    else if c = ',' ∧ awaited = [] then none
    else some ⟨awaited, .code⟩

/-- A string does not go on in the next line. -/
def step (n : Nesting) (c : Char) : Option Nesting :=
  match n.quoting with
  | .code => stepCode n.awaited c
  | .quoted =>
    if c = '\n' ∨ c = '\r' then none
    else some ⟨n.awaited, if c = '"' then .code else if c = '\\' then .escaped else .quoted⟩
  | .escaped => if c = '\n' ∨ c = '\r' then none else some ⟨n.awaited, .quoted⟩

def run (n : Nesting) (cs : List Char) : Option Nesting := cs.foldlM step n

/-- The pieces of a text between its commas outside brackets and strings. -/
def cut (n : Nesting) : List Char → Option (List (List Char))
  | [] => if n = start then some [[]] else none
  | c :: cs =>
    if n = start ∧ c = ',' then (cut start cs).map ([] :: ·)
    else (n.step c).bind fun next => (cut next cs).map (List.modifyHead (c :: ·))

end Nesting

/-- The pieces of a text, none if it is empty; a text with brackets or strings that do not match has
none. -/
def pieces? (text : String) : Option (List String) :=
  if text.isEmpty then some []
  else (Nesting.start.cut text.toList).map (List.map String.ofList)

open Text.Nesting

variable {outer cs ds : List Char} {n m : Nesting} {text other : String}

theorem run_nil : n.run [] = some n := rfl

theorem run_cons (c : Char) : n.run (c :: cs) = (n.step c).bind (·.run cs) :=
  List.foldlM_cons

theorem run_append : n.run (cs ++ ds) = (n.run cs).bind (·.run ds) :=
  List.foldlM_append

theorem cut_append (h : n.run cs = some m) :
    n.cut (cs ++ ds) = (m.cut ds).map (List.modifyHead (cs ++ ·)) := by
  induction cs generalizing n with
  | nil =>
      obtain rfl := Option.some.inj (run_nil.symm.trans h)
      have unchanged : List.modifyHead ([] ++ · : List Char → List Char) = id := by
        funext pieces
        cases pieces <;> rfl
      rw [List.nil_append, unchanged, Option.map_id_fun, id]
  | cons c rest ih =>
      rw [run_cons, Option.bind_eq_some_iff] at h
      obtain ⟨next, hstep, hrest⟩ := h
      have uncut : ¬(n = start ∧ c = ',') := by
        rintro ⟨rfl, rfl⟩
        cases hstep
      rw [List.cons_append, cut, if_neg uncut, hstep, Option.bind_some, ih hrest, Option.map_map]
      congr 1
      funext pieces
      cases pieces <;> rfl

/-- A text that is scanned as code from here on, and leaves the same brackets open. -/
def Closed (outer : List Char) (text : String) : Prop :=
  run ⟨outer, .code⟩ text.toList = some ⟨outer, .code⟩

theorem Closed.cut_append (h : Closed [] text) (ds : List Char) :
    start.cut (text.toList ++ ds) = (start.cut ds).map (List.modifyHead (text.toList ++ ·)) :=
  Text.cut_append h

/-- The text stays in one piece wherever it is put into code. -/
def Solid (text : String) : Prop := ∀ outer, Closed outer text

def marks : List Char := ['(', ')', '[', ']', '\x7b', '\x7d', ',', '"']

def Plain (text : String) : Prop := ∀ c ∈ text.toList, c ∉ marks

theorem all_plain_iff (text : String) :
    (text.toList.all fun c => !marks.contains c) = true ↔ Plain text := by
  simp [Plain]

instance (text : String) : Decidable (Plain text) := decidable_of_iff _ (all_plain_iff text)

theorem step_plain {c : Char} (hc : c ∉ marks) : step ⟨outer, .code⟩ c = some ⟨outer, .code⟩ := by
  simp only [marks, List.mem_cons, List.not_mem_nil, or_false, not_or] at hc
  simp [step, stepCode, closer?, isCloser, hc]

theorem step_opener {c close : Char} (hc : closer? c = some close) :
    step ⟨outer, .code⟩ c = some ⟨close :: outer, .code⟩ := by
  simp only [step, stepCode, hc]

theorem closer?_of_isCloser {c : Char} (h : isCloser c) : closer? c = none := by
  simp only [isCloser, Bool.or_eq_true, decide_eq_true_eq] at h
  obtain (rfl | rfl) | rfl := h <;> rfl

theorem step_closer {c : Char} (hc : isCloser c) :
    step ⟨c :: outer, .code⟩ c = some ⟨outer, .code⟩ := by
  simp [step, stepCode, closer?_of_isCloser hc, hc]

theorem step_comma (h : outer ≠ []) : step ⟨outer, .code⟩ ',' = some ⟨outer, .code⟩ := by
  simp [step, stepCode, closer?, isCloser, h]

theorem Closed.append (h : Closed outer text) (h' : Closed outer other) :
    Closed outer (text ++ other) := by
  rw [Closed, String.toList_append, run_append, h, Option.bind_some, h']

theorem closed_empty : Closed outer "" := rfl

theorem run_plain (h : ∀ c ∈ cs, c ∉ marks) : run ⟨outer, .code⟩ cs = some ⟨outer, .code⟩ := by
  induction cs with
  | nil => rfl
  | cons c rest ih =>
      obtain ⟨hc, hrest⟩ := List.forall_mem_cons.mp h
      rw [run_cons, step_plain hc, Option.bind_some, ih hrest]

theorem Plain.solid (h : Plain text) : Solid text := fun _ => run_plain h

/-- What stands between a bracket and what closes it may hold commas. -/
theorem Closed.enclosed {opener close : Char} (hopener : closer? opener = some close)
    (hclose : isCloser close) (h : Closed (close :: outer) text)
    (hother : other.toList = opener :: text.toList ++ [close]) : Closed outer other := by
  rw [Closed, hother, List.cons_append, run_cons, step_opener hopener, Option.bind_some, run_append,
    h, Option.bind_some, run_cons, step_closer hclose]
  rfl

theorem Closed.between (h : Closed (')' :: outer) text) : Closed outer ("(" ++ text ++ ")") :=
  have opener : closer? '(' = some ')' := rfl
  h.enclosed opener rfl (by simp)

theorem Closed.subscript (h : Closed (']' :: outer) text) : Closed outer ("[" ++ text ++ "]") :=
  have opener : closer? '[' = some ']' := rfl
  h.enclosed opener rfl (by simp)

theorem Closed.parenthesized (h : Closed (')' :: outer) text) :
    Closed outer (parenthesized text) := by
  have blank : Closed (')' :: outer) " " := Plain.solid (by decide) _
  have opener : closer? '(' = some ')' := rfl
  exact ((blank.append h).append blank).enclosed opener rfl (by simp [ColorLowering.parenthesized])

theorem closed_intercalate {separator : String} (hseparator : Closed outer separator)
    {items : List String} (h : ∀ item ∈ items, Closed outer item) :
    Closed outer (separator.intercalate items) := by
  induction items with
  | nil => exact closed_empty
  | cons item rest ih =>
      obtain ⟨hitem, hrest⟩ := List.forall_mem_cons.mp h
      cases rest with
      | nil =>
          rw [String.intercalate_singleton]
          exact hitem
      | cons next others =>
          rw [String.intercalate_cons_cons]
          exact (hitem.append hseparator).append (ih hrest)

theorem closed_commaSeparated (houter : outer ≠ []) {items : List String}
    (h : ∀ item ∈ items, Solid item) : Closed outer (commaSeparated items) := by
  have separator : Closed outer ", " := by
    change (run ⟨outer, .code⟩ [',', ' ']) = some ⟨outer, .code⟩
    rw [run_cons, step_comma houter, Option.bind_some]
    exact run_plain (by simp [marks])
  exact closed_intercalate separator fun item hitem => h item hitem outer

def padded : List String → List String
  | [] => []
  | [text] => [" " ++ text ++ " "]
  | text :: rest => (" " ++ text) :: padded rest

theorem cut_commaSeparated {items : List String} (hne : items ≠ [])
    (h : ∀ item ∈ items, Solid item) :
    start.cut (" " ++ commaSeparated items ++ " ").toList =
      some ((padded items).map String.toList) := by
  have blank : Solid " " := Plain.solid (by decide)
  induction items with
  | nil => exact absurd rfl hne
  | cons item rest ih =>
      obtain ⟨hitem, hrest⟩ := List.forall_mem_cons.mp h
      have opened : Closed [] (" " ++ item) := (blank []).append (hitem [])
      cases rest with
      | nil =>
          have whole := (opened.append (blank [])).cut_append []
          have ended : start.cut [] = some [[]] := rfl
          rw [List.append_nil, ended] at whole
          rw [commaSeparated, String.intercalate_singleton, whole]
          simp [padded]
      | cons next others =>
          have chars : (" " ++ commaSeparated (item :: next :: others) ++ " ").toList =
              (" " ++ item).toList ++
                ',' :: (" " ++ commaSeparated (next :: others) ++ " ").toList := by
            rw [commaSeparated, String.intercalate_cons_cons]
            simp [commaSeparated]
          have here : start.cut (',' :: (" " ++ commaSeparated (next :: others) ++ " ").toList) =
              (start.cut (" " ++ commaSeparated (next :: others) ++ " ").toList).map ([] :: ·) := by
            rw [cut, if_pos ⟨rfl, rfl⟩]
          rw [chars, opened.cut_append, here, ih (by simp) hrest]
          simp [padded]

/-- The pieces between the parentheses of a call are its arguments. -/
theorem pieces?_callText (function : String) {args : List String}
    (h : ∀ arg ∈ args, Solid arg) :
    ∃ inner, callText function args = function ++ "(" ++ inner ++ ")" ∧
      pieces? inner = some (padded args) := by
  unfold callText
  cases args with
  | nil => exact ⟨"", by simp [← String.toList_inj], rfl⟩
  | cons arg rest =>
      refine ⟨" " ++ commaSeparated (arg :: rest) ++ " ", ?_, ?_⟩
      · simp [parenthesized, ← String.toList_inj]
      · have text : (" " ++ commaSeparated (arg :: rest) ++ " ").isEmpty = false := by simp
        rw [pieces?, text, cut_commaSeparated (by simp) h]
        simp [Function.comp_def]

theorem solid_callText {function : String} (hfunction : Solid function) {args : List String}
    (h : ∀ arg ∈ args, Solid arg) : Solid (callText function args) := by
  intro outer
  unfold callText
  split
  · exact (hfunction outer).append (closed_empty.enclosed rfl rfl rfl)
  · exact (hfunction outer).append (closed_commaSeparated (by simp) h).parenthesized

end ColorLowering.Text
