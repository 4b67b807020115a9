import ColorLowering.Proofs.Agreement.Apart
import ColorLowering.Proofs.Session.Reached

/-!
# What a session knows of a symbol

Only a module that lists a symbol enters it, so what a session knew of a symbol is known as long as
no module that lists it is lowered, and of a symbol that no lowered module lists nothing is known.
-/
namespace ColorLowering
namespace Session

variable {p : Program} {target : Target} {symbol : SymbolId}

theorem sameEntry_of_run {s s' : Session} {m : ModuleId}
    (hrun : (lowerModule p m).run s = (.ok (), s'))
    (hm : Unlisted (p.module m).constants symbol) :
    Classification.SameEntry s.tables.known s'.tables.known symbol := by
  obtain ⟨out, -, hout, rfl⟩ | ⟨_, _, hfailed, -, -⟩ := lowerModule_cases hrun
  · exact (@Emission.sameOff_module ⟨p, s.target, m⟩ _ _ hout).1.entry symbol hm
  · cases hfailed

theorem Reached.sameEntry {before later : List ModuleId} {first s : Session}
    (hs : Reached p target (before ++ later) s) (hfirst : Reached p target before first)
    (hlater : ∀ m ∈ later, Unlisted (p.module m).constants symbol) :
    Classification.SameEntry first.tables.known s.tables.known symbol := by
  generalize hdone : before ++ later = done at hs
  induction hs generalizing later with
  | new =>
      obtain ⟨rfl, -⟩ := List.append_eq_nil_iff.mp hdone
      rw [hfirst.unique .new]
      exact .refl _ _
  | @lowered done s s' m hs hrun ih =>
      rcases later.eq_nil_or_concat with rfl | ⟨rest, last, rfl⟩
      · rw [List.append_nil] at hdone
        subst hdone
        rw [hfirst.unique (hs.lowered hrun)]
        exact .refl _ _
      · rw [List.concat_eq_append] at hdone hlater
        rw [← List.append_assoc] at hdone
        obtain ⟨hrest, hlast⟩ := List.append_inj' hdone rfl
        obtain rfl := List.singleton_inj.mp hlast
        have entered := ih (fun n hn => hlater n (List.mem_append_left _ hn)) hrest
        exact entered.trans (sameEntry_of_run hrun (hlater last (by simp)))
  | failed hs hrun ih =>
      rw [eq_of_lowerModule_error hs.atMargin hrun]
      exact ih hlater hdone

theorem Reached.sameEntry_empty {done : List ModuleId} {s : Session} (hs : Reached p target done s)
    (hdone : ∀ m ∈ done, Unlisted (p.module m).constants symbol) :
    Classification.SameEntry .empty s.tables.known symbol :=
  @Reached.sameEntry p target symbol [] done _ s hs .new hdone

end Session
end ColorLowering
