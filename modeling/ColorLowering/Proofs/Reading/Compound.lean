import ColorLowering.Proofs.Reading.Operand

/-!
# Compound operands

One lemma for each way in which the text of an expression is put together from those of its parts.
-/
namespace ColorLowering.Cpp

variable {text : String} {tree : Tree} {ops : List UnaryOp} {base : Tree}

theorem isVector_prefixed (h : base.isVector = false) : (prefixed ops base).isVector = false := by
  induction ops generalizing base with
  | nil => exact h
  | cons op rest ih => exact ih rfl

/-- What begins as an operand begins with a character that an operand can begin with. -/
theorem Operand.first_append (h : Operand text ops base) (more : List Char) :
    ∃ c rest, text.toList ++ more = c :: rest ∧ leads c := by
  obtain ⟨c, rest, hchars, hc⟩ := h.first
  exact ⟨c, rest ++ more, by rw [hchars, List.cons_append], hc⟩

theorem Base.of_close {chars : List Char} {c : Char} {s : Sign} {ts : List Token}
    (htext : text.toList = chars ++ [c]) (hc : c ∈ [')', ']', '\x7d'])
    (hs : Sign.ofChar c = some s) (hlex : lex chars = some ts)
    (hreads : Reads (ts ++ [.sign s]) [] tree)
    (hfirst : ∃ d rest, text.toList = d :: rest ∧ leads d) (htree : tree.isVector = false) :
    Base text tree := by
  have alone : c ∈ aloneSigns ∧ c ∈ separators := by
    simp only [List.mem_cons, List.not_mem_nil, or_false] at hc
    rcases hc with rfl | rfl | rfl <;> decide
  have closed (b : List Char) (us : List Token) (hb : lex b = some us) :
      lex (chars ++ c :: b) = some (ts ++ .sign s :: us) :=
    lex_append_separator alone.2 hlex (lex_alone alone.1 hs hb)
  have whole : lex text.toList = some (ts ++ [.sign s]) := by
    rw [htext]
    exact closed [] [] rfl
  refine ⟨⟨⟨_, whole, hreads⟩, hfirst, htree⟩, ?_⟩
  intro ts' b us hts' hb
  rw [whole] at hts'
  obtain rfl := Option.some.inj hts'
  rw [htext, List.append_assoc, List.append_assoc]
  exact closed ('.' :: b) us hb

theorem ReadsAs.binary {l r : String} {left right : Tree} (hl : ReadsAs l left)
    (hr : ReadsAs r right) (op : BinaryOp) :
    Base ("(" ++ l ++ " " ++ op.token ++ " " ++ r ++ ")") (.binary op left right) := by
  obtain ⟨lops, lbase, ⟨⟨lts, hllex, hlreads⟩, -, hlvector⟩, rfl⟩ := hl
  obtain ⟨rops, rbase, ⟨⟨rts, hrlex, hrreads⟩, -, -⟩, rfl⟩ := hr
  have operation := lex_binary op hrlex
  have spaced := lex_append_separator (c := ' ') (by decide) hllex
    ((lex_blank rfl).trans operation)
  have chars : ("(" ++ l ++ " " ++ op.token ++ " " ++ r ++ ")").toList =
      '(' :: (l.toList ++ ' ' :: (op.token.toList ++ ' ' :: r.toList)) ++ [')'] := by simp
  refine Base.of_close chars (by decide) rfl (lex_alone (by decide) rfl spaced) ?_
    ⟨'(', _, chars, by decide⟩ rfl
  intro stack
  have opened : Reader.step ⟨stack, .operand⟩ (.sign .openParen) =
      some ⟨.group :: stack, .operand⟩ := rfl
  have operated : Reader.step ⟨lops.map .unary ++ .group :: stack, .after lbase⟩
      (.sign (.operator op)) =
        some ⟨.binary (prefixed lops lbase) op :: .group :: stack, .operand⟩ := by
    change Reader.readAfter _ lbase (.operator op) = _
    rw [Reader.readAfter, if_neg (by simp [hlvector]), Reader.settle_unary]
    rfl
  rw [List.cons_append, Reader.run_cons_of_step opened, List.append_assoc,
    Reader.run_append_of_run (hlreads _), List.cons_append, Reader.run_cons_of_step operated]
  exact hrreads.run_end (fun _ _ => rfl) rfl

theorem ReadsAs.unary (h : ReadsAs text tree) (op : UnaryOp) :
    ReadsAs (unaryText op.token text) (.unary op tree) := by
  obtain ⟨ops, base, ⟨⟨ts, hlex, hreads⟩, ⟨c, rest, hchars, hc⟩, hvector⟩, rfl⟩ := h
  have token : ∃ s, op.token.toList = [s] ∧ leads s := by
    cases op <;> exact ⟨_, rfl, by decide⟩
  obtain ⟨s, hs, hleads⟩ := token
  have opened (stack : List Frame) : Reader.step ⟨stack, .operand⟩ (.sign (.ofUnary op)) =
      some ⟨.unary op :: stack, .operand⟩ := by cases op <;> rfl
  rw [unaryText, String.front?_eq, String.front?_eq, hchars, hs]
  by_cases hsame : c = s
  · rw [if_pos (by simp [hsame])]
    have inner := lex_append_separator (c := ')') (by decide) hlex
      (lex_alone (b := []) (by decide) rfl rfl)
    have grouped := lex_alone (c := '(') (by decide) rfl inner
    have whole := lex_unary op (by decide) (by cases op <;> decide) grouped
    have chars : (op.token ++ "(" ++ text ++ ")").toList =
        op.token.toList ++ '(' :: (text.toList ++ [')']) := by simp
    rw [← chars] at whole
    have reads : Reads (.sign (.ofUnary op) :: .sign .openParen :: (ts ++ [.sign .closeParen]))
        [op] (prefixed ops base) := by
      intro stack
      rw [Reader.run_cons_of_step (opened stack), Reader.run_cons_of_step rfl]
      exact hreads.run_end (fun _ _ => rfl) rfl
    rw [hs] at chars
    exact ⟨[op], prefixed ops base, ⟨⟨_, whole, reads⟩, ⟨s, _, chars, hleads⟩,
      isVector_prefixed hvector⟩, rfl⟩
  · rw [if_neg (by simp [hsame])]
    rw [hchars] at hlex
    have whole := lex_unary op hc (by rw [hs]; simp [Ne.symm hsame]) hlex
    rw [← hchars, ← String.toList_append] at whole
    have reads : Reads (.sign (.ofUnary op) :: ts) (ops ++ [op]) base := by
      intro stack
      rw [Reader.run_cons_of_step (opened stack), hreads]
      simp
    have chars : (op.token ++ text).toList = s :: text.toList := by
      rw [String.toList_append, hs, List.singleton_append]
    exact ⟨ops ++ [op], base, ⟨⟨_, whole, reads⟩, ⟨s, _, chars, hleads⟩, hvector⟩,
      by simp [prefixed]⟩

theorem Base.index (h : Base text tree) {i : String} {position : Tree} (hi : ReadsAs i position) :
    Base (text ++ "[" ++ i ++ "]") (.index tree position) := by
  obtain ⟨ts, hlex, hreads⟩ := h.tokens
  obtain ⟨ops, base, ⟨⟨its, hilex, hireads⟩, -, -⟩, rfl⟩ := hi
  have opened := lex_append_separator (c := '[') (by decide) hlex
    (lex_alone (by decide) rfl hilex)
  obtain ⟨c, rest, hchars, hc⟩ := h.first_append ('[' :: (i.toList ++ [']']))
  have chars : (text ++ "[" ++ i ++ "]").toList = text.toList ++ '[' :: i.toList ++ [']'] := by simp
  refine Base.of_close chars (by decide) rfl opened ?_ ⟨c, rest, by simpa using hchars, hc⟩ rfl
  intro stack
  rw [List.append_assoc, Reader.run_append_of_run (hreads stack), List.cons_append,
    Reader.run_cons_of_step rfl]
  exact hireads.run_end (fun _ _ => rfl) rfl

theorem Base.member (h : Base text tree) {field : String} (hfield : isIdentifier field.toList) :
    Base (text ++ "." ++ field) (.member tree field.toList) := by
  obtain ⟨ts, hlex, hreads⟩ := h.tokens
  have word := isWord_of_isIdentifier hfield
  obtain ⟨d, more, hd, hletter, -⟩ := exists_letter_of_isWord word
  have after {b : List Char} {us : List Token}
      (hb : lex (field.toList ++ b) = some (.identifier field.toList :: us)) :
      lex (text.toList ++ '.' :: (field.toList ++ b)) =
        some (ts ++ .sign .dot :: .identifier field.toList :: us) := by
    apply h.dot ts _ _ hlex
    rw [hd] at hb ⊢
    exact lex_dot hletter hb
  have alone : lex (field.toList ++ []) = some [.identifier field.toList] := by
    rw [List.append_nil, lex_word word, ofName_of_isIdentifier hfield]
  have whole := after alone
  obtain ⟨c, rest, hchars, hc⟩ := h.first_append ('.' :: field.toList)
  refine ⟨⟨⟨_, by simpa using whole, ?_⟩, ⟨c, rest, by simpa using hchars, hc⟩, rfl⟩, ?_⟩
  · intro stack
    rw [Reader.run_append_of_run (hreads stack)]
    rfl
  · intro ts' b us hts' hb
    have tokens : ts' = ts ++ [.sign .dot, .identifier field.toList] := by
      rw [List.append_nil] at whole
      have same : (text ++ "." ++ field).toList = text.toList ++ '.' :: field.toList := by simp
      rw [same, whole] at hts'
      exact (Option.some.inj hts').symm
    have more := lex_word_append word (by decide) (by decide) hb
    rw [ofName_of_isIdentifier hfield] at more
    have result := after more
    rw [tokens]
    simpa using result

/-! ### Names, calls and conversions -/

theorem Base.name {w : String} (hw : isIdentifier w.toList) : Base w (.name [w.toList]) := by
  have word := isWord_of_isIdentifier hw
  have token := ofName_of_isIdentifier hw
  have whole : lex w.toList = some [.identifier w.toList] := by rw [lex_word word, token]
  refine ⟨⟨⟨_, whole, fun stack => rfl⟩, ?_, by simp [Tree.isVector]⟩, ?_⟩
  · obtain ⟨c, rest, hchars, hletter, -⟩ := exists_letter_of_isWord word
    exact ⟨c, rest, hchars, by rw [leads, hletter]; rfl⟩
  · intro ts b us hts hb
    rw [whole] at hts
    obtain rfl := Option.some.inj hts
    have more := lex_word_append word (by decide) (by decide) hb
    rwa [token] at more

theorem Base.qualified {space w : String} (hspace : isIdentifier space.toList)
    (hw : isIdentifier w.toList) (hvector : ¬(space = "std" ∧ w = "vector")) :
    Base (space ++ "::" ++ w) (.name [space.toList, w.toList]) := by
  have chars (more : List Char) : (space ++ "::" ++ w).toList ++ more =
      space.toList ++ ':' :: ':' :: (w.toList ++ more) := by simp
  have word := isWord_of_isIdentifier hw
  have token := ofName_of_isIdentifier hw
  have before {b : List Char} {us : List Token} (hb : lex (w.toList ++ b) = some us) :
      lex ((space ++ "::" ++ w).toList ++ b) =
        some (.identifier space.toList :: .sign .qualifier :: us) := by
    rw [chars, lex_word_append (isWord_of_isIdentifier hspace) (by decide) (by decide)
      (lex_qualifier hb), ofName_of_isIdentifier hspace]
  have alone : lex (w.toList ++ []) = some [.identifier w.toList] := by
    rw [List.append_nil, lex_word word, token]
  have whole := before alone
  rw [List.append_nil] at whole
  refine ⟨⟨⟨_, whole, fun stack => rfl⟩, ?_, ?_⟩, ?_⟩
  · obtain ⟨c, rest, hfirst, hc⟩ := (Base.name hspace).first_append (':' :: ':' :: w.toList)
    exact ⟨c, rest, by rw [← hfirst]; simp, hc⟩
  · rw [Bool.eq_false_iff]
    intro h
    simp only [Tree.isVector, beq_iff_eq, List.cons.injEq, and_true, String.toList_inj] at h
    exact hvector h
  · intro ts b us hts hb
    rw [whole] at hts
    obtain rfl := Option.some.inj hts
    have more := lex_word_append word (by decide) (by decide) hb
    rw [token] at more
    exact before more

theorem Reads.apply {ts : List Token} {head : Tree} (h : Reads ts [] head)
    {args : List (List Token)} {trees : List Tree}
    (hargs : ∀ e : Enclosure, List.Forall₂ e.Holds args trees) :
    Reads (ts ++ .sign .openParen :: (commaTokens args ++ [.sign .closeParen])) []
      (.apply head trees) := by
  intro stack
  rw [Reader.run_append_of_run (h stack), Reader.run_cons_of_step rfl]
  exact (Enclosure.args head).run_list (hargs _) stack []

theorem Base.apply {head : String} {h : Tree} (hhead : Base head h) {args : List String}
    {trees : List Tree} (hargs : List.Forall₂ ReadsAs args trees) :
    Base (head ++ parenthesized (commaSeparated args)) (.apply h trees) := by
  obtain ⟨ts, hlex, hreads⟩ := hhead.tokens
  obtain ⟨tokens, htokens, hholds⟩ := tokens_of_readsAs hargs
  have opened := lex_append_separator (c := '(') (by decide) hlex
    (lex_opened (lex_commaSeparated htokens))
  have chars : (head ++ parenthesized (commaSeparated args)).toList =
      head.toList ++ '(' :: ' ' :: ((commaSeparated args).toList ++ [' ']) ++ [')'] := by
    simp [parenthesized]
  refine Base.of_close chars (by decide) rfl opened ?_ ?_ rfl
  · rw [List.append_assoc, List.cons_append]
    exact hreads.apply hholds
  · obtain ⟨c, rest, hfirst, hc⟩ := hhead.first_append (parenthesized (commaSeparated args)).toList
    exact ⟨c, rest, by rw [← hfirst, String.toList_append], hc⟩

theorem Base.call {function : String} {h : Tree} (hfunction : Base function h)
    {args : List String} {trees : List Tree} (hargs : List.Forall₂ ReadsAs args trees) :
    Base (callText function args) (.apply h trees) := by
  cases hargs with
  | cons harg hrest => exact hfunction.apply (.cons harg hrest)
  | nil =>
      obtain ⟨ts, hlex, hreads⟩ := hfunction.tokens
      have opened := lex_append_separator (c := '(') (by decide) hlex
        (lex_alone (b := []) (by decide) rfl rfl)
      have chars : (callText function []).toList = function.toList ++ ['('] ++ [')'] := by
        simp [callText]
      refine Base.of_close chars (by decide) rfl opened ?_ ?_ rfl
      · rw [List.append_assoc]
        exact hreads.apply fun _ => .nil
      · obtain ⟨c, rest, hfirst, hc⟩ := hfunction.first_append ['(', ')']
        exact ⟨c, rest, by rw [← hfirst, chars, List.append_assoc]; rfl, hc⟩

theorem ReadsAs.conversion {head : String} {hs ty : List Token} (hlex : lex head.toList = some hs)
    (hrun : ∀ stack, Reader.run ⟨stack, .operand⟩ hs = some ⟨stack, .converted ty⟩)
    (hfirst : ∃ c rest, head.toList = c :: rest ∧ leads c) (h : ReadsAs text tree) :
    Base (head ++ parenthesized text) (.cast ty tree) := by
  obtain ⟨ops, base, ⟨⟨ts, htext, hreads⟩, -, -⟩, rfl⟩ := h
  have opened := lex_append_separator (c := '(') (by decide) hlex (lex_opened htext)
  have chars : (head ++ parenthesized text).toList =
      head.toList ++ '(' :: ' ' :: (text.toList ++ [' ']) ++ [')'] := by simp [parenthesized]
  refine Base.of_close chars (by decide) rfl opened ?_ ?_ rfl
  · intro stack
    rw [List.append_assoc, List.cons_append, Reader.run_append_of_run (hrun stack),
      Reader.run_cons_of_step rfl]
    exact hreads.run_end (fun _ _ => rfl) rfl
  · obtain ⟨c, rest, hhead, hc⟩ := hfirst
    exact ⟨c, _, by rw [String.toList_append, hhead, List.cons_append], hc⟩

end ColorLowering.Cpp
