import ColorLowering.Aggregate.Braces
import ColorLowering.Proofs.Calls.Solid

/-!
# Lists in braces are solid

A list is scanned row by row, and indentation changes nothing within a row. So a list of solid texts
is solid on one line and on many, and so is every list that an aggregate is laid out in.
-/
namespace ColorLowering

open Text Nesting

variable {outer cs : List Char} {text : String}

namespace Text

variable {n m : Nesting} {a b : List Char}

/-- A line ends in code only, where it changes nothing. -/
theorem step_lineEnd {c : Char} (hc : c = '\n' ∨ c = '\r') (h : n.step c = some m) :
    n = ⟨n.awaited, .code⟩ ∧ m = n := by
  obtain ⟨awaited, quoting⟩ := n
  have plain : c ∉ marks := by rcases hc with rfl | rfl <;> decide
  cases quoting with
  | code =>
      rw [step_plain plain] at h
      exact ⟨rfl, (Option.some.inj h).symm⟩
  | quoted | escaped => simp [step, hc] at h

/-- The rows are scanned one after the other, each of them as code from its start to its end. -/
inductive RunsRows : List Char → List (List Char) → List Char → Prop
  | nil {a : List Char} : RunsRows a [] a
  | cons {a b c row : List Char} {rows : List (List Char)} :
      run ⟨a, .code⟩ row = some ⟨b, .code⟩ → RunsRows b rows c → RunsRows a (row :: rows) c

theorem runsRows_lines (h : n.run cs = some ⟨b, .code⟩) :
    ∃ a, n.run (cutFirst cs).1 = some ⟨a, .code⟩ ∧ RunsRows a (cutFirst cs).2 b := by
  induction cs generalizing n with
  | nil => exact ⟨b, h, .nil⟩
  | cons c rest ih =>
      rw [run_cons, Option.bind_eq_some_iff] at h
      obtain ⟨next, hstep, hrest⟩ := h
      obtain ⟨a, hfirst, hrows⟩ := ih hrest
      have cut : cutFirst (c :: rest) = addFirst c (cutFirst rest) := rfl
      rw [cut, addFirst]
      split
      · rename_i hc
        obtain ⟨hcode, rfl⟩ := step_lineEnd (.inl hc) hstep
        rw [hcode] at hfirst
        exact ⟨_, congrArg some hcode, .cons hfirst hrows⟩
      · exact ⟨a, by rw [run_cons, hstep, Option.bind_some, hfirst], hrows⟩

theorem run_dropReturn (h : n.run cs = some m) : n.run (dropReturn cs) = some m := by
  unfold dropReturn
  split
  · rename_i hlast
    obtain ⟨before, rfl⟩ := List.getLast?_eq_some_iff.mp hlast
    rw [run_append, Option.bind_eq_some_iff] at h
    obtain ⟨middle, hbefore, hreturn⟩ := h
    rw [run_cons, Option.bind_eq_some_iff] at hreturn
    obtain ⟨next, hstep, hnext⟩ := hreturn
    obtain ⟨-, rfl⟩ := step_lineEnd (.inr rfl) hstep
    rw [List.dropLast_concat, hbefore]
    exact hnext
  · exact h

theorem RunsRows.rows {lines : List (List Char)} (h : RunsRows a lines b) (hne : lines ≠ []) :
    RunsRows a (lines.dropLast.map dropReturn ++ lastRow (lines.getLastD [])) b := by
  induction h with
  | nil => exact absurd rfl hne
  | @cons a b c row rows hrow hrows ih =>
      cases hrows with
      | nil =>
          simp only [List.dropLast_singleton, List.map_nil, List.nil_append, List.getLastD_cons,
            List.getLastD_nil, lastRow]
          split
          · rename_i hempty
            obtain rfl := List.isEmpty_iff.mp hempty
            cases hrow
            exact .nil
          · exact .cons hrow .nil
      | cons hnext hothers => exact .cons (run_dropReturn hrow) (by simpa using ih (by simp))

theorem RunsRows.indented {rows : List (List Char)} (h : RunsRows a rows b) :
    run ⟨a, .code⟩ ("\n".intercalate (rows.map fun row => "    " ++ String.ofList row)).toList =
      some ⟨b, .code⟩ := by
  have margin {a b row : List Char} (h : run ⟨a, .code⟩ row = some ⟨b, .code⟩) :
      run ⟨a, .code⟩ ("    " ++ String.ofList row).toList = some ⟨b, .code⟩ := by
    have chars : ("    " ++ String.ofList row).toList = [' ', ' ', ' ', ' '] ++ row := by simp
    have blanks : run ⟨a, .code⟩ [' ', ' ', ' ', ' '] = some ⟨a, .code⟩ :=
      run_plain (by simp [marks])
    rw [chars, run_append, blanks, Option.bind_some, h]
  induction h with
  | nil => rfl
  | @cons a b c row rows hrow hrows ih =>
      cases hrows with
      | nil =>
          rw [List.map_singleton, String.intercalate_singleton]
          exact margin hrow
      | cons hnext hothers =>
          have newline : run ⟨b, .code⟩ "\n".toList = some ⟨b, .code⟩ := run_plain (by simp [marks])
          rw [List.map_cons, List.map_cons, String.intercalate_cons_cons, String.toList_append,
            String.toList_append, run_append, run_append, margin hrow, Option.bind_some, newline,
            Option.bind_some]
          exact ih

/-- Indentation changes what is scanned only between the rows. -/
theorem Closed.indentItem (h : Closed outer text) : Closed outer (indentItem text) := by
  obtain ⟨a, hfirst, hothers⟩ := runsRows_lines h
  have lines : RunsRows outer (Text.lines text.toList) outer := .cons hfirst hothers
  exact (lines.rows (by simp [Text.lines])).indented

theorem solid_bracedList {items : List String} (h : ∀ item ∈ items, Solid item) :
    Solid (bracedList items) := by
  intro outer
  have opener : closer? '\x7b' = some '\x7d' := rfl
  unfold bracedList
  split
  · exact closed_empty.enclosed opener rfl rfl
  · split
    · have blank : Closed ('\x7d' :: outer) " " := Plain.solid (by decide) _
      have inner := (blank.append (closed_commaSeparated (by simp) h)).append blank
      exact inner.enclosed opener rfl (by simp)
    · have newline : Closed ('\x7d' :: outer) "\n" := Plain.solid (by decide) _
      have separator : Closed ('\x7d' :: outer) ",\n" := by
        change run _ [',', '\n'] = _
        rw [run_cons, step_comma (by simp), Option.bind_some]
        exact run_plain (by simp [marks])
      have rows : Closed ('\x7d' :: outer)
          (",\n".intercalate (items.map ColorLowering.indentItem)) := by
        refine closed_intercalate separator fun item hitem => ?_
        obtain ⟨row, hrow, rfl⟩ := List.mem_map.mp hitem
        exact Closed.indentItem (h row hrow _)
      exact ((newline.append rows).append newline).enclosed opener rfl (by simp)

end Text

def Leaves.Takes {α : Type} (P : α → Prop) (layout : Leaves α) : Prop :=
  ∀ ts, (∀ t ∈ ts, Solid t) → ∀ a rest, layout.run ts = some (a, rest) →
    P a ∧ ∀ t ∈ rest, Solid t

namespace Leaves.Takes

variable {α β : Type} {P : α → Prop} {Q : β → Prop}

theorem pure {a : α} (h : P a) : Takes P (pure a : Leaves α) := by
  intro ts hts a' rest hrun
  cases hrun
  exact ⟨h, hts⟩

theorem bind {x : Leaves α} {f : α → Leaves β} (hx : Takes P x) (hf : ∀ a, P a → Takes Q (f a)) :
    Takes Q (x >>= f) := by
  intro ts hts b rest hrun
  rw [StateT.run_bind, Option.bind_eq_bind, Option.bind_eq_some_iff] at hrun
  obtain ⟨⟨a, middle⟩, hfirst, hrest⟩ := hrun
  obtain ⟨ha, hmiddle⟩ := hx ts hts a middle hfirst
  exact hf a ha middle hmiddle b rest hrest

theorem take : Takes Solid Leaves.take := by
  intro ts hts a rest hrun
  cases ts with
  | nil => cases hrun
  | cons text others =>
      cases hrun
      exact List.forall_mem_cons.mp hts

theorem repeated {layout : Nat → Leaves α} (h : ∀ i, Takes P (layout i)) (start count : Nat) :
    Takes (∀ a ∈ ·, P a) (Leaves.repeated layout start count) := by
  induction count generalizing start with
  | zero =>
      rw [repeated_zero]
      exact pure (by simp)
  | succ n ih =>
      rw [repeated_succ]
      apply (h start).bind
      intro first hfirst
      apply (ih (start + 1)).bind
      intro others hothers
      exact pure (List.forall_mem_cons.mpr ⟨hfirst, hothers⟩)

mutual
theorem flat : (ty : Ty) → Takes (∀ t ∈ ·, Solid t) (Leaves.flat ty)
  | .void | .scalar _ | .string => by
      simp only [Leaves.flat]
      apply take.bind
      intro text htext
      exact pure (by simpa using htext)
  | .array elem size => by
      rw [Leaves.flat]
      apply (repeated (fun _ => flat elem) 0 size).bind
      intro items hitems
      refine pure fun text htext => ?_
      obtain ⟨item, hitem, hmem⟩ := List.mem_flatten.mp htext
      exact hitems item hitem text hmem
  | .struct _ members => by
      rw [Leaves.flat]
      exact flatMembers members

theorem flatMembers : (members : List (String × Ty)) →
    Takes (∀ t ∈ ·, Solid t) (Leaves.flatMembers members)
  | [] => by
      rw [Leaves.flatMembers]
      exact pure (by simp)
  | (_, ty) :: rest => by
      rw [Leaves.flatMembers]
      apply (flat ty).bind
      intro first hfirst
      apply (flatMembers rest).bind
      intro others hothers
      exact pure (List.forall_mem_append.mpr ⟨hfirst, hothers⟩)
end

end Leaves.Takes

namespace Target

mutual
theorem takes_braces (t : Target) (ht : Plain t.vectorNamespace) : (ty : Ty) →
    Leaves.Takes Solid (t.braces ty)
  | .void | .scalar _ | .string => by
      simp only [braces]
      exact .take
  | .array elem size => by
      rw [braces]
      split
      · rename_i spelling shape hform
        apply (Leaves.Takes.flat _).bind
        intro args hargs
        refine .pure fun outer => ?_
        exact ((t.plain_native ht hform).solid outer).append
          (closed_commaSeparated (by simp) hargs).parenthesized
      · apply (Leaves.Takes.repeated (fun _ => takes_braces t ht elem) 0 size).bind
        intro items hitems
        exact .pure (solid_bracedList hitems)
  | .struct _ members => by
      rw [braces]
      apply (takes_bracesMembers t ht members).bind
      intro items hitems
      exact .pure (solid_bracedList hitems)

theorem takes_bracesMembers (t : Target) (ht : Plain t.vectorNamespace) :
    (members : List (String × Ty)) →
      Leaves.Takes (∀ item ∈ ·, Solid item) (t.bracesMembers members)
  | [] => by
      rw [bracesMembers]
      exact .pure (by simp)
  | (_, ty) :: rest => by
      rw [bracesMembers]
      apply (takes_braces t ht ty).bind
      intro first hfirst
      apply (takes_bracesMembers t ht rest).bind
      intro others hothers
      exact .pure (List.forall_mem_cons.mpr ⟨hfirst, hothers⟩)
end

end Target
end ColorLowering
