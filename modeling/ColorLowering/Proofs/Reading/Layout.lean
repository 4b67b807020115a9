import ColorLowering.Aggregate.Braces
import ColorLowering.Proofs.Reading.Operand

/-!
# Tokens of lists in braces

A line end separates tokens, and no token reaches over one. So the tokens of a text are those of its
lines, whatever the lines are indented by, and a list in braces has the same tokens on one line as
on many.
-/
namespace ColorLowering.Cpp

variable {p : Pending} {a b cs : List Char} {ts us : List Token}

theorem lex_newline (ha : lex a = some ts) (hb : lex b = some us) :
    lex (a ++ '\n' :: b) = some (ts ++ us) :=
  lex_append_separator (by decide) ha ((lex_blank rfl).trans hb)

theorem finish_of_next {c : Char} {done : List Token} {q : Pending} (hc : c = '\n' ∨ c = '\r')
    (h : p.next c = some (done, q)) : q = .blank ∧ p.finish = some done := by
  have hseparator : c ∈ separators := by rcases hc with rfl | rfl <;> decide
  have start : Pending.start c = some .blank := by rcases hc with rfl | rfl <;> rfl
  cases hp : p.finish with
  | some ts =>
      rw [(endsBefore_separator hseparator hp).next hp, start] at h
      cases h
      exact ⟨rfl, rfl⟩
  | none =>
      cases p with
      | string text escaped =>
          have stop : (Pending.string text escaped).continued c = none := by
            rcases hc with rfl | rfl <;> rfl
          rw [Pending.next, stop, hp] at h
          cases h
      | _ => cases hp

theorem scan_dropReturn (h : scan p (cs ++ ['\r']) = some ts) : scan p cs = some ts := by
  induction cs generalizing p ts with
  | nil =>
      obtain ⟨done, q, rest, hnext, hrest, rfl⟩ := scan_cons_ok h
      obtain ⟨rfl, hp⟩ := finish_of_next (.inr rfl) hnext
      obtain rfl : rest = [] := (Option.some.inj hrest).symm
      rw [List.append_nil]
      exact hp
  | cons c rest ih =>
      obtain ⟨done, q, later, hnext, hlater, rfl⟩ := scan_cons_ok h
      exact scan_cons hnext (ih hlater)

theorem lex_dropReturn (h : lex cs = some ts) : lex (Text.dropReturn cs) = some ts := by
  unfold Text.dropReturn
  split
  · rename_i hlast
    obtain ⟨start, rfl⟩ := List.getLast?_eq_some_iff.mp hlast
    rw [List.dropLast_concat]
    exact scan_dropReturn h
  · exact h

theorem scan_lines (h : scan p cs = some ts) :
    ∃ first tokens, scan p (Text.cutFirst cs).1 = some first ∧
      List.Forall₂ (fun line ts => lex line = some ts) (Text.cutFirst cs).2 tokens ∧
      ts = first ++ tokens.flatten := by
  induction cs generalizing p ts with
  | nil => exact ⟨ts, [], h, .nil, (List.append_nil ts).symm⟩
  | cons c rest ih =>
      obtain ⟨done, q, later, hnext, hlater, rfl⟩ := scan_cons_ok h
      obtain ⟨first, tokens, hfirst, htokens, rfl⟩ := ih hlater
      have cut : Text.cutFirst (c :: rest) = Text.addFirst c (Text.cutFirst rest) := rfl
      rw [cut, Text.addFirst]
      split
      · rename_i hc
        obtain ⟨rfl, hp⟩ := finish_of_next (.inl hc) hnext
        exact ⟨done, first :: tokens, hp, .cons hfirst htokens, rfl⟩
      · exact ⟨done ++ first, tokens, scan_cons hnext hfirst, htokens,
          (List.append_assoc ..).symm⟩

theorem lex_rows_of_lines {lines : List (List Char)} {tokens : List (List Token)}
    (h : List.Forall₂ (fun line ts => lex line = some ts) lines tokens) (hne : lines ≠ []) :
    ∃ kept, List.Forall₂ (fun row ts => lex row = some ts)
        (lines.dropLast.map Text.dropReturn ++ Text.lastRow (lines.getLastD [])) kept ∧
      tokens.flatten = kept.flatten := by
  induction h with
  | nil => exact absurd rfl hne
  | @cons line ts lines tokens hline hrest ih =>
      cases hrest with
      | nil =>
          simp only [List.dropLast_singleton, List.map_nil, List.nil_append, List.getLastD_cons,
            List.getLastD_nil, Text.lastRow]
          split
          · rename_i hempty
            obtain rfl := List.isEmpty_iff.mp hempty
            obtain rfl : ts = [] := (Option.some.inj hline).symm
            exact ⟨[], .nil, rfl⟩
          · exact ⟨[ts], .cons hline .nil, rfl⟩
      | @cons line' ts' lines tokens hnext hothers =>
          obtain ⟨kept, hkept, hsame⟩ := ih (by simp)
          refine ⟨ts :: kept, .cons (lex_dropReturn hline) ?_, ?_⟩
          · simpa using hkept
          · rw [List.flatten_cons, hsame, List.flatten_cons]

theorem lex_rows (h : lex cs = some ts) :
    ∃ tokens, List.Forall₂ (fun row ts => lex row = some ts) (Text.rows cs) tokens ∧
      ts = tokens.flatten := by
  obtain ⟨first, others, hfirst, hothers, rfl⟩ := scan_lines h
  have lines : List.Forall₂ (fun row ts => lex row = some ts) (Text.lines cs)
      (first :: others) := .cons hfirst hothers
  exact lex_rows_of_lines lines (by simp [Text.lines])

theorem lex_indentedRows {rows : List (List Char)} {tokens : List (List Token)}
    (h : List.Forall₂ (fun row ts => lex row = some ts) rows tokens) :
    lex ("\n".intercalate (rows.map fun row => "    " ++ String.ofList row)).toList =
      some tokens.flatten := by
  have indented {row : List Char} {ts : List Token} (hrow : lex row = some ts) :
      lex ("    " ++ String.ofList row).toList = some ts := by
    have chars : ("    " ++ String.ofList row).toList = ' ' :: ' ' :: ' ' :: ' ' :: row := by simp
    rw [chars, lex_blank rfl, lex_blank rfl, lex_blank rfl, lex_blank rfl, hrow]
  induction h with
  | nil => rfl
  | @cons row ts rows tokens hrow hrest ih =>
      cases hrest with
      | nil =>
          rw [List.map_singleton, String.intercalate_singleton, List.flatten_singleton]
          exact indented hrow
      | @cons row' ts' rows tokens hnext hothers =>
          rw [List.map_cons, List.map_cons, String.intercalate_cons_cons, String.toList_append,
            String.toList_append, List.append_assoc, List.flatten_cons]
          exact lex_newline (indented hrow) ih

theorem lex_indentItem {item : String} (h : lex item.toList = some ts) :
    lex (indentItem item).toList = some ts := by
  obtain ⟨tokens, hrows, rfl⟩ := lex_rows h
  exact lex_indentedRows hrows

/-- A list in braces, up to the closing one, has the same tokens on one line as on many. -/
theorem lex_openedList {items : List String} {tokens : List (List Token)}
    (h : List.Forall₂ (fun item ts => lex item.toList = some ts) items tokens) :
    ∃ chars, (bracedList items).toList = '\x7b' :: chars ++ ['\x7d'] ∧
      lex ('\x7b' :: chars) = some (.sign .openBrace :: commaTokens tokens) := by
  have opened {chars : List Char} (hchars : lex chars = some (commaTokens tokens)) :
      lex ('\x7b' :: chars) = some (.sign .openBrace :: commaTokens tokens) :=
    lex_alone (by decide) rfl hchars
  unfold bracedList
  split
  · rename_i hempty
    obtain rfl := List.isEmpty_iff.mp hempty
    cases h
    exact ⟨[], rfl, by decide⟩
  · split
    · have blank : lex [' '] = some [] := by decide
      have inner := lex_append_separator (c := ' ') (by decide) (lex_commaSeparated h) blank
      rw [List.append_nil] at inner
      exact ⟨' ' :: ((commaSeparated items).toList ++ [' ']), by simp,
        opened ((lex_blank rfl).trans inner)⟩
    · have indented : List.Forall₂ (fun item ts => lex item.toList = some ts)
          (items.map indentItem) tokens := by
        rw [List.forall₂_map_left_iff]
        exact h.imp fun _ _ hitem => lex_indentItem hitem
      have rows : lex (",\n".intercalate (items.map indentItem)).toList =
          some (commaTokens tokens) := lex_intercalate ['\n'] rfl rfl indented
      have newline : lex ['\n'] = some [] := by decide
      have inner := lex_append_separator (c := '\n') (by decide) rows newline
      rw [List.append_nil] at inner
      exact ⟨'\n' :: ((",\n".intercalate (items.map indentItem)).toList ++ ['\n']), by simp,
        opened ((lex_blank rfl).trans inner)⟩

theorem lex_bracedList {items : List String} {tokens : List (List Token)}
    (h : List.Forall₂ (fun item ts => lex item.toList = some ts) items tokens) :
    lex (bracedList items).toList =
      some (.sign .openBrace :: (commaTokens tokens ++ [.sign .closeBrace])) := by
  obtain ⟨chars, hchars, hlex⟩ := lex_openedList h
  rw [hchars]
  exact lex_append_separator (by decide) hlex (lex_alone (b := []) (by decide) rfl rfl)

end ColorLowering.Cpp
