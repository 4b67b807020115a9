import ColorLowering.Proofs.Reading.Lexer

/-!
# Tokens of texts put together

The tokens of two texts written one after the other are those of both, where no token of the first
goes on in the second. Brackets, commas and blanks never continue a token, and a token of one
character that begins no longer one always ends.
-/
namespace ColorLowering.Cpp

def separators : List Char :=
  [' ', '\n', '\t', '\r', '(', ')', '[', ']', '\x7b', '\x7d', ',']

def leads (c : Char) : Bool := isLetter c || c.isDigit || ['(', '-', '!', '~', '"'].contains c

variable {p q : Pending} {a b cs ds text : List Char} {c d : Char} {ts us : List Token} {s : Sign}

theorem isNameChar_of_isLetter (h : isLetter c) : isNameChar c := by
  rw [isNameChar, h, Bool.true_or]

theorem isNameChar_of_isDigit (h : c.isDigit) : isNameChar c := by
  rw [isNameChar, h, Bool.or_true]

theorem isLetter_of_isDigit (h : c.isDigit) : isLetter c = false := by
  simp only [Char.isDigit, Bool.and_eq_true, decide_eq_true_eq, ge_iff_le,
    UInt32.le_iff_toNat_le] at h
  have low : 48 ≤ c.val.toNat := h.1
  have high : c.val.toNat ≤ 57 := h.2
  have under : c ≠ '_' := by rintro rfl; revert high; decide
  have dollar : c ≠ '$' := by rintro rfl; revert low; decide
  have upper : c.isUpper = false := by
    refine decide_eq_false ?_
    rintro ⟨h, -⟩
    change 65 ≤ c.val.toNat at h
    omega
  have lower : c.isLower = false := by
    refine Bool.and_eq_false_iff.mpr (.inl (decide_eq_false ?_))
    intro h
    change 97 ≤ c.val.toNat at h
    omega
  have alpha : c.isAlpha = false := Bool.or_eq_false_iff.mpr ⟨upper, lower⟩
  have ascii : ¬127 < c.toNat := by
    change ¬127 < c.val.toNat
    omega
  simp [isLetter, alpha, under, dollar, ascii]

theorem scan_cons (h : p.next c = some (ts, q)) (hq : scan q b = some us) :
    scan p (c :: b) = some (ts ++ us) := by
  rw [scan, h]
  change (scan q b).bind _ = _
  rw [hq]
  rfl

theorem scan_cons_ok (h : scan p (c :: b) = some ts) :
    ∃ done q rest, p.next c = some (done, q) ∧ scan q b = some rest ∧ ts = done ++ rest := by
  rw [scan] at h
  obtain ⟨⟨done, q⟩, hnext, h⟩ := Option.bind_eq_some_iff.mp h
  obtain ⟨rest, hrest, hts⟩ := Option.bind_eq_some_iff.mp h
  exact ⟨done, q, rest, hnext, hrest, (Option.some.inj hts).symm⟩

theorem scan_continued (h : p.continued c = some q) : scan p (c :: b) = scan q b := by
  rw [scan, Pending.next, h]
  change (scan q b).bind _ = _
  cases scan q b with
  | none => rfl
  | some us => rfl

structure Pending.EndsBefore (p : Pending) (c : Char) : Prop where
  closes : p.continued c = none
  apart : p.runsInto c = false

theorem Pending.EndsBefore.next (h : p.EndsBefore c) (hp : p.finish = some ts) :
    p.next c = (Pending.start c).map (ts, ·) := by
  rw [Pending.next, h.closes, h.apart, hp]
  cases Pending.start c <;> rfl

theorem scan_of_endsBefore (h : p.EndsBefore c) (hp : p.finish = some ts)
    (hb : lex (c :: b) = some us) : scan p (c :: b) = some (ts ++ us) := by
  obtain ⟨done, q, rest, hnext, hrest, rfl⟩ := scan_cons_ok hb
  have blank : Pending.blank.EndsBefore c := ⟨rfl, rfl⟩
  rw [blank.next rfl] at hnext
  obtain ⟨start, hstart, heq⟩ := Option.map_eq_some_iff.mp hnext
  obtain ⟨rfl, rfl⟩ := Prod.mk.inj heq
  have next : p.next c = some (ts, start) := by rw [h.next hp, hstart]; rfl
  exact scan_cons next hrest

/-- Where the second text begins with a character that no token goes on with, the tokens are those
of both. -/
theorem scan_append (ha : scan p a = some ts) (hb : lex (c :: b) = some us)
    (hends : ∀ (q : Pending) ts, q.finish = some ts → q.EndsBefore c) :
    scan p (a ++ c :: b) = some (ts ++ us) := by
  induction a generalizing p ts with
  | nil => exact scan_of_endsBefore (hends p ts ha) ha hb
  | cons d rest ih =>
      obtain ⟨done, q, later, hnext, hlater, rfl⟩ := scan_cons_ok ha
      rw [List.append_assoc]
      exact scan_cons hnext (ih hlater)

/-! ### Separators -/

theorem ofLonger_eq_none (h : ∀ x ∈ Sign.longer, x.1 ≠ cs) : Sign.ofLonger cs = none := by
  rw [Sign.ofLonger, List.find?_eq_none.mpr]
  · rfl
  · intro x hx
    simpa using h x hx

theorem separators_apart : ∀ c ∈ separators, isNameChar c = false ∧ c ≠ '.' ∧ c ≠ '+' ∧ c ≠ '-' ∧
    c ≠ '"' ∧ ∀ x ∈ Sign.longer, x.1.getLast? ≠ some c := by
  intro c hc
  simp only [separators, List.mem_cons, List.not_mem_nil, or_false] at hc
  rcases hc with rfl | rfl | rfl | rfl | rfl | rfl | rfl | rfl | rfl | rfl | rfl <;> decide

theorem endsBefore_separator (hc : c ∈ separators) (hp : p.finish = some ts) :
    p.EndsBefore c := by
  obtain ⟨hname, hdot, hplus, hminus, hquote, hlonger⟩ := separators_apart c hc
  have letter : isLetter c = false := (Bool.or_eq_false_iff.mp hname).1
  have digit : c.isDigit = false := (Bool.or_eq_false_iff.mp hname).2
  cases p with
  | blank => exact ⟨rfl, rfl⟩
  | name cs => exact ⟨by simp [Pending.continued, hname], by simp [Pending.runsInto, hquote]⟩
  | number cs =>
      refine ⟨?_, by simp [Pending.runsInto, hquote]⟩
      simp [Pending.continued, Pending.continuesNumber, hname, hdot, hplus, hminus]
  | sign cs s =>
      refine ⟨?_, rfl⟩
      have short : Sign.ofLonger (cs ++ [c]) = none := by
        apply ofLonger_eq_none
        intro x hx heq
        apply hlonger x hx
        rw [heq, List.getLast?_append]
        rfl
      simp [Pending.continued, digit, short]
  | string cs escaped => cases hp
  | closed cs => exact ⟨rfl, letter⟩

/-- Whatever stands before a separator ends there. -/
theorem lex_append_separator (hc : c ∈ separators) (ha : lex a = some ts)
    (hb : lex (c :: b) = some us) : lex (a ++ c :: b) = some (ts ++ us) :=
  scan_append ha hb fun _ _ => endsBefore_separator hc

theorem lex_blank (hc : isBlank c) : lex (c :: b) = lex b := by
  have start : Pending.start c = some .blank := by rw [Pending.start, if_pos hc]
  rw [lex, scan, Pending.next]
  simp only [Pending.continued, Pending.runsInto, start, Pending.finish]
  change (lex b).bind _ = lex b
  cases lex b with
  | none => rfl
  | some us => rfl

/-! ### Signs -/

theorem lex_sign (hs : Sign.ofChar c = some s) (hc : isBlank c = false ∧ isLetter c = false ∧
      c.isDigit = false ∧ c ≠ '"') (hb : lex b = some us)
    (hapart : ∀ d ∈ b.head?, (c = '.' → d.isDigit = false) ∧ Sign.ofLonger [c, d] = none) :
    lex (c :: b) = some (.sign s :: us) := by
  have start : Pending.start c = some (.sign [c] s) := by
    simp [Pending.start, hc, hs]
  have next : Pending.blank.next c = some ([], .sign [c] s) := by
    simp [Pending.next, Pending.continued, Pending.runsInto, Pending.finish, start]
  refine scan_cons next ?_
  cases b with
  | nil =>
      obtain rfl : us = [] := (Option.some.inj hb).symm
      rfl
  | cons d rest =>
      obtain ⟨hdigit, hlonger⟩ := hapart d rfl
      have whole : ¬([c] = ['.'] ∧ d.isDigit = true) := by
        rintro ⟨hdot, hd⟩
        rw [hdigit (List.cons.inj hdot).1] at hd
        cases hd
      have ends : (Pending.sign [c] s).EndsBefore d := by
        refine ⟨?_, rfl⟩
        rw [Pending.continued, if_neg whole]
        change (Sign.ofLonger [c, d]).map _ = none
        rw [hlonger]
        rfl
      exact scan_of_endsBefore ends rfl hb

def aloneSigns : List Char := ['(', ')', '[', ']', '\x7b', '\x7d', ',', '~']

theorem aloneSigns_apart : ∀ c ∈ aloneSigns, (isBlank c = false ∧ isLetter c = false ∧
    c.isDigit = false ∧ c ≠ '"') ∧ c ≠ '.' ∧ ∀ x ∈ Sign.longer, x.1.head? ≠ some c := by
  intro c hc
  simp only [aloneSigns, List.mem_cons, List.not_mem_nil, or_false] at hc
  rcases hc with rfl | rfl | rfl | rfl | rfl | rfl | rfl | rfl <;> decide

theorem lex_alone (hc : c ∈ aloneSigns) (hs : Sign.ofChar c = some s) (hb : lex b = some us) :
    lex (c :: b) = some (.sign s :: us) := by
  obtain ⟨hplain, hdot, hlonger⟩ := aloneSigns_apart c hc
  refine lex_sign hs hplain hb fun d _ => ⟨fun h => absurd h hdot, ?_⟩
  apply ofLonger_eq_none
  intro x hx heq
  apply hlonger x hx
  rw [heq]
  rfl

theorem longer_no_letter : ∀ x ∈ Sign.longer, x.1.any isNameChar = false := by
  decide

theorem lex_pair {e : Char} (hc : Sign.ofChar c = some s) (hplain : isBlank c = false ∧
      isLetter c = false ∧ c.isDigit = false ∧ c ≠ '"') (hdot : c ≠ '.') {s' : Sign}
    (hpair : Sign.ofLonger [c, e] = some s') (hlonger : ∀ d, Sign.ofLonger [c, e, d] = none)
    (hb : lex b = some us) : lex (c :: e :: b) = some (.sign s' :: us) := by
  have start : Pending.start c = some (.sign [c] s) := by
    simp [Pending.start, hplain, hc]
  have next : Pending.blank.next c = some ([], .sign [c] s) := by
    simp [Pending.next, Pending.continued, Pending.runsInto, Pending.finish, start]
  have continued : (Pending.sign [c] s).continued e = some (.sign [c, e] s') := by
    simp [Pending.continued, hdot, hpair]
  refine scan_cons next ?_
  rw [scan_continued continued]
  cases b with
  | nil =>
      obtain rfl : us = [] := (Option.some.inj hb).symm
      rfl
  | cons d rest =>
      have ends : (Pending.sign [c, e] s').EndsBefore d :=
        ⟨by simp [Pending.continued, hlonger], rfl⟩
      exact scan_of_endsBefore ends rfl hb

/-- Letters and digits belong to no sign. -/
theorem ofLonger_nameChar (hd : isNameChar d) : Sign.ofLonger [c, d] = none := by
  apply ofLonger_eq_none
  intro x hx heq
  exact List.any_eq_false.mp (longer_no_letter x hx) d (by rw [heq]; simp) hd

def Sign.ofUnary : UnaryOp → Sign
  | .neg => .operator .sub
  | .not => .not
  | .bitNot => .bitNot

theorem lex_unary (op : UnaryOp) (hd : leads d) (hne : op.token.toList ≠ [d])
    (hb : lex (d :: b) = some us) :
    lex (op.token.toList ++ d :: b) = some (.sign (.ofUnary op) :: us) := by
  have apart (c : Char) (hc : ∀ x ∈ Sign.longer, x.1 ≠ [c, '('] ∧ x.1 ≠ [c, '!'] ∧
      x.1 ≠ [c, '~'] ∧ x.1 ≠ [c, '"'] ∧ (x.1 = [c, '-'] → c = '-')) (hcd : [c] ≠ [d]) :
      Sign.ofLonger [c, d] = none := by
    by_cases hname : isNameChar d
    · exact ofLonger_nameChar hname
    · have hsigns : d ∈ ['(', '-', '!', '~', '"'] := by
        simp only [isNameChar, Bool.or_eq_true, not_or] at hname
        simpa [leads, hname] using hd
      apply ofLonger_eq_none
      intro x hx heq
      have h := hc x hx
      simp only [heq] at h
      simp only [List.mem_cons, List.not_mem_nil, or_false] at hsigns
      rcases hsigns with rfl | rfl | rfl | rfl | rfl
      · exact h.1 rfl
      · exact hcd (congrArg (fun c => [c]) (h.2.2.2.2 rfl))
      · exact h.2.1 rfl
      · exact h.2.2.1 rfl
      · exact h.2.2.2.1 rfl
  cases op with
  | neg =>
      refine lex_sign (c := '-') rfl (by decide) hb fun e he => ⟨fun h => absurd h (by decide), ?_⟩
      obtain rfl := Option.some.inj he
      exact apart '-' (by decide) hne
  | not =>
      refine lex_sign (c := '!') rfl (by decide) hb fun e he => ⟨fun h => absurd h (by decide), ?_⟩
      obtain rfl := Option.some.inj he
      exact apart '!' (by decide) hne
  | bitNot => exact lex_alone (c := '~') (by decide) rfl hb

theorem lex_binary (op : BinaryOp) (hb : lex b = some us) :
    lex (op.token.toList ++ ' ' :: b) = some (.sign (.operator op) :: us) := by
  have operator : lex op.token.toList = some [.sign (.operator op)] := by cases op <;> decide
  exact lex_append_separator (by decide) operator ((lex_blank rfl).trans hb)

theorem lex_dot (hd : isLetter d) (hb : lex (d :: b) = some us) :
    lex ('.' :: d :: b) = some (.sign .dot :: us) := by
  refine lex_sign rfl (by decide) hb fun e he => ?_
  obtain rfl := Option.some.inj he
  refine ⟨fun _ => Bool.eq_false_iff.mpr fun hdigit => ?_,
    ofLonger_nameChar (isNameChar_of_isLetter hd)⟩
  rw [isLetter_of_isDigit hdigit] at hd
  cases hd

theorem lex_qualifier (hb : lex b = some us) :
    lex (':' :: ':' :: b) = some (.sign .qualifier :: us) := by
  refine lex_pair (e := ':') rfl (by decide) (by decide) rfl (fun d => ?_) hb
  apply ofLonger_eq_none
  intro x hx heq
  have short : ∀ x ∈ Sign.longer, x.1.take 2 = [':', ':'] → x.1.length = 2 := by decide
  have length := short x hx (by rw [heq]; rfl)
  rw [heq] at length
  cases length

/-! ### Names and numbers -/

theorem isBlank_of_isNameChar (hc : isNameChar c) : isBlank c = false := by
  rw [Bool.eq_false_iff]
  intro hblank
  simp only [isBlank, Bool.or_eq_true, beq_iff_eq] at hblank
  rcases hblank with ((rfl | rfl) | rfl) | rfl <;> revert hc <;> decide

theorem scan_name (hcs : cs.all isNameChar) :
    scan (.name text) (cs ++ b) = scan (.name (text ++ cs)) b := by
  induction cs generalizing text with
  | nil => rw [List.append_nil, List.nil_append]
  | cons c rest ih =>
      rw [List.all_cons, Bool.and_eq_true] at hcs
      have continued : (Pending.name text).continued c = some (.name (text ++ [c])) := by
        rw [Pending.continued, if_pos hcs.1]
      rw [List.cons_append, scan_continued continued, ih hcs.2, List.append_assoc,
        List.singleton_append]

def isWord (cs : List Char) : Bool := cs.head?.any isLetter && cs.all isNameChar

theorem exists_letter_of_isWord (hcs : isWord cs) :
    ∃ c rest, cs = c :: rest ∧ isLetter c ∧ rest.all isNameChar := by
  cases cs with
  | nil => cases hcs
  | cons c rest =>
      rw [isWord, List.head?_cons, Option.any_some, List.all_cons, Bool.and_eq_true,
        Bool.and_eq_true] at hcs
      exact ⟨c, rest, rfl, hcs.1, hcs.2.2⟩

theorem scan_word (hcs : isWord cs) : scan .blank (cs ++ b) = scan (.name cs) b := by
  obtain ⟨c, rest, rfl, hletter, hrest⟩ := exists_letter_of_isWord hcs
  have plain := isBlank_of_isNameChar (isNameChar_of_isLetter hletter)
  have next : Pending.blank.next c = some ([], .name [c]) := by
    simp [Pending.next, Pending.continued, Pending.runsInto, Pending.finish, Pending.start,
      plain, hletter]
  rw [List.cons_append, scan, next]
  change (scan (.name [c]) (rest ++ b)).bind _ = _
  rw [scan_name hrest]
  change (scan (.name (c :: rest)) b).bind (fun ts => some ([] ++ ts)) = _
  cases scan (.name (c :: rest)) b <;> rfl

theorem lex_word (hcs : isWord cs) : lex cs = some [.ofName cs] := by
  have h := scan_word (b := []) hcs
  rw [List.append_nil] at h
  exact h

theorem lex_word_append (hcs : isWord cs) (hc : isNameChar c = false) (hquote : c ≠ '"')
    (hb : lex (c :: b) = some us) : lex (cs ++ c :: b) = some (.ofName cs :: us) := by
  have ends : (Pending.name cs).EndsBefore c :=
    ⟨by simp [Pending.continued, hc], by simp [Pending.runsInto, hquote]⟩
  rw [lex, scan_word hcs]
  exact scan_of_endsBefore ends rfl hb

theorem isWord_of_isIdentifier (h : isIdentifier cs) : isWord cs := by
  rw [isIdentifier, Bool.and_eq_true] at h
  exact h.1

theorem ofName_of_isIdentifier (h : isIdentifier cs) : Token.ofName cs = .identifier cs := by
  rw [isIdentifier, Bool.and_eq_true, Bool.not_eq_true'] at h
  rw [Token.ofName, h.2]
  rfl

theorem scan_number (hcs : cs.all fun c => isNameChar c || c == '.') :
    scan (.number text) (cs ++ b) = scan (.number (text ++ cs)) b := by
  induction cs generalizing text with
  | nil => rw [List.append_nil, List.nil_append]
  | cons c rest ih =>
      rw [List.all_cons, Bool.and_eq_true] at hcs
      have continued : (Pending.number text).continued c = some (.number (text ++ [c])) := by
        rw [Pending.continued, if_pos]
        rw [Pending.continuesNumber, hcs.1, Bool.true_or]
      rw [List.cons_append, scan_continued continued, ih hcs.2, List.append_assoc,
        List.singleton_append]

theorem scan_digit (hc : c.isDigit) : scan .blank (c :: b) = scan (.number [c]) b := by
  have plain := isBlank_of_isNameChar (isNameChar_of_isDigit hc)
  have next : Pending.blank.next c = some ([], .number [c]) := by
    simp [Pending.next, Pending.continued, Pending.runsInto, Pending.finish, Pending.start,
      plain, isLetter_of_isDigit hc, hc]
  rw [scan, next]
  change (scan (.number [c]) b).bind (fun ts => some ([] ++ ts)) = _
  cases scan (.number [c]) b <;> rfl

theorem lex_number (hc : c.isDigit) (hcs : cs.all fun c => isNameChar c || c == '.') :
    lex (c :: cs) = some [.number (c :: cs)] := by
  have h : scan (.number [c]) (cs ++ []) = scan (.number ([c] ++ cs)) [] := scan_number hcs
  rw [List.append_nil] at h
  rw [lex, scan_digit hc, h]
  rfl

end ColorLowering.Cpp
