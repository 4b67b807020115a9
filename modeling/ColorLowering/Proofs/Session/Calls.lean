import ColorLowering.Proofs.Calls.Stored
import ColorLowering.Proofs.Session.Midway

/-!
# Calls are complete

Whatever was lowered before, and however far a module has come, a call of a function has a text for
each parameter, or fails for the first place that has none. However the texts look, cutting what is
between the parentheses of the call at the commas outside brackets and strings gives them back.
-/
namespace ColorLowering

namespace Session

open Text

section
variable {p : Program} {target : Target} (ht : Text.Plain target.vectorNamespace) (hp : p.Plain)
include ht hp

theorem Midway.solid {m : ModuleId} {s : EmissionState} (hs : Midway p target m Expr.Plain s) :
    s.tables.Solid := by
  have plain (m : ModuleId) : (⟨p, target, m⟩ : ModuleContext).Plain := ⟨ht, hp⟩
  refine hs.textInvariant (fun m => Emission.textInvariant_solid (plain m)) Tables.solid_empty ?_
  intro portable e result s t he solid hrun
  exact (Emission.solid_of_rendering (fun _ hk =>
    Rendering.ensures_render ((plain m).scope hk portable) e he) solid hrun).1

/-- A call with more arguments than the function has parameters fails whatever they are. Any other
runs through the places of its parameters: the first that fails ends it, with a missing argument if
there is neither an argument nor a default; if none fails, the commas between the parentheses that
stand outside brackets and strings cut out the text of every place. In a program that comes from a
store every call fits its function. -/
theorem calls_are_complete {m : ModuleId} {s : EmissionState}
    (hs : Midway p target m Expr.Plain s) (portable : Bool) (ty : Ty) {symbol : SymbolId}
    {params : List Param} {slots : List Slot} (hcall : p.CallFits symbol params slots)
    (hslots : Expr.SlotsPlain slots) (args : List Expr) (hargs : Expr.AllPlain args) :
    let scope : Scope := ⟨p, target, m, s.tables.known, portable⟩
    let texts := s.tables.defaultTexts
    let run := (Expr.call ty (.function symbol slots) args).render scope texts
    let function := scope.resolve symbol
    let places := callPlaces function params slots args
    (params.length < args.length →
      run = (.error (.tooManyArguments function args.length params.length), texts)) ∧
    (args.length ≤ params.length → places.length = params.length ∧
      ((∃ before place after ts middle e last, places = before ++ place :: after ∧
          Rendering.Runs scope texts before ts middle ∧ place scope middle = (.error e, last) ∧
          run = (.error e, last) ∧
          ∀ param slot, params[before.length]? = some param →
            slots[before.length]? = some slot → args.length ≤ before.length →
            slot.default? = none → e = .missingArgument param.name function) ∨
        ∃ ts last inner, ts.length = params.length ∧ Rendering.Runs scope texts places ts last ∧
          run = (.ok (function ++ "(" ++ inner ++ ")"), last) ∧
          Text.pieces? inner = some (Text.padded ts))) ∧
    ∀ store : Store, store.program = p → ∀ n portable e, p.RendersAt n portable e → e.Fitted p := by
  intro scope texts run function places
  have solid := hs.solid ht hp
  have inScope : scope.Solid := ⟨ht, hp.names, solid.known⟩
  have lengths := hcall.slots.length_eq
  have count : places.length = params.length := length_callPlaces hcall.slots args
  have stored (store : Store) (hstore : store.program = p) (n : ModuleId) (portable : Bool)
      (e : Expr) (he : p.RendersAt n portable e) : e.Fitted p := by
    subst hstore
    exact store.fitted_program he
  refine ⟨fun hlt => ?_, fun hle => ⟨count, ?_⟩, stored⟩
  · rw [lengths] at hlt ⊢
    exact Rendering.render_call_of_lt ty hlt
  have run_eq : run = _ := Rendering.render_call_of_le ty hcall.slots (lengths ▸ hle)
  obtain ⟨ts, last, hruns, heq⟩ |
    ⟨before, place, after, ts, middle, e, last, hplaces, hruns, hfails, heq⟩ :=
      Rendering.sequence_cases places scope texts
  · right
    rw [Rendering.bind_apply, heq] at run_eq
    have ensures : ∀ r ∈ places, Rendering.Ensures Solid scope r :=
      Rendering.ensures_callPlaces inScope function hslots hargs
    have each := hruns.solid ensures solid.texts
    obtain ⟨inner, htext, hpieces⟩ := Text.pieces?_callText function each
    exact ⟨ts, last, inner, hruns.length.trans count, hruns, htext ▸ run_eq, hpieces⟩
  · left
    rw [Rendering.bind_apply, heq] at run_eq
    refine ⟨before, place, after, ts, middle, e, last, hplaces, hruns, hfails, run_eq, ?_⟩
    intro param slot hparam hslot hnone hdefault
    have here : places[before.length]? = some place := by simp [hplaces]
    have there : places[before.length]? = _ := getElem?_callPlaces hparam hslot
    rw [here, hdefault, List.getElem?_eq_none hnone] at there
    obtain rfl := Option.some.inj there
    cases hfails
    rfl

end

def wideStruct : Ty :=
  .struct "S" [("a", .scalar .int), ("b", .scalar .int), ("c", .scalar .int), ("d", .scalar .int),
    ("e", .scalar .int)]

def intParam (name : String) : Param := ⟨name, .scalar .int, .read⟩

def intLiteral (i : Int32) : Expr := .literal (.scalar .int) (.scalar (.int i))

def quotingProgram : Program where
  symbols := #[⟨"f", some ⟨0⟩, .fn [⟨"s", .string, .read⟩, ⟨"x", wideStruct, .read⟩, intParam "y"]
      (.scalar .int)⟩,
    ⟨"g", some ⟨0⟩, .fn [intParam "a", intParam "b"] (.scalar .int)⟩]
  modules := #[⟨"m", "", [], [], [⟨⟨0⟩, []⟩, ⟨⟨1⟩, []⟩]⟩]

def quotingSlots : List Slot :=
  [.required "s" .string, .required "x" wideStruct, .optional "y" (.scalar .int) ⟨0⟩
    (.call (.scalar .int)
      (.function ⟨1⟩ [.required "a" (.scalar .int), .required "b" (.scalar .int)])
      [intLiteral 6, intLiteral 7])]

def quotingArgs : List Expr :=
  [.literal .string (.string "a,("),
    .aggregate wideStruct [intLiteral 1, intLiteral 2, intLiteral 3, intLiteral 4, intLiteral 5]]

theorem plain_quotingProgram : quotingProgram.Plain := by
  have bodies : ∀ m, ∀ f ∈ (quotingProgram.module m).functions, f.body = [] := by
    rintro ⟨_ | n⟩ <;> simp [quotingProgram, Program.module]
  have constants : ∀ m, (quotingProgram.module m).constants = [] := by
    rintro ⟨_ | n⟩ <;> rfl
  refine ⟨?_, ?_, fun m c hc => ?_⟩
  · rintro ⟨_ | _ | n⟩
    · change Text.Plain "f"
      decide
    · change Text.Plain "g"
      decide
    · change Text.Plain ""
      decide
  · rintro m portable e (⟨hc, -⟩ | ⟨hf, he⟩)
    · rw [constants m] at hc
      cases hc
    · rw [bodies m _ hf] at he
      cases he
  · rw [constants m] at hc
    cases hc

theorem quoted_comma_kept : ∃ inner,
    ((Expr.call (.scalar .int) (.function ⟨0⟩ quotingSlots) quotingArgs).render
      ⟨quotingProgram, .standard, ⟨0⟩, .empty, false⟩ .empty).1 = .ok ("f(" ++ inner ++ ")") ∧
    Text.pieces? inner = some [" \"a,(\"",
      " S\x7b\n    1,\n    2,\n    3,\n    4,\n    5\n\x7d", " g( 6, 7 ) "] := by
  have start : Midway quotingProgram .standard ⟨0⟩ Expr.Plain (new .standard).emissionState := .start []
  have fits : quotingProgram.CallFits ⟨0⟩ _ quotingSlots :=
    ⟨⟨.scalar .int, rfl⟩, .cons ⟨rfl, rfl⟩ (.cons ⟨rfl, rfl⟩ (.cons ⟨rfl, rfl⟩ .nil))⟩
  obtain ⟨-, complete, -⟩ := calls_are_complete (by decide) plain_quotingProgram start false
    (.scalar .int) fits (by simp [quotingSlots, Expr.SlotsPlain, Expr.Plain, Expr.AllPlain,
      intLiteral]) quotingArgs (by
        simp only [quotingArgs, Expr.AllPlain, Expr.Plain, intLiteral, wideStruct, Ty.Plain]
        decide)
  obtain ⟨-, ⟨_, _, _, _, _, _, _, _, _, _, hrun, _⟩ |
    ⟨ts, last, inner, -, hruns, hrun, hpieces⟩⟩ := complete (by decide)
  · cases hrun
  · refine ⟨inner, congrArg Prod.fst hrun, ?_⟩
    rw [hpieces]
    rw [quotingSlots, callPlaces_cons, callPlaces_cons, callPlaces_cons] at hruns
    obtain _ | ⟨hfirst, _ | ⟨hsecond, _ | ⟨hthird, _ | _⟩⟩⟩ := hruns
    cases hfirst
    cases hsecond
    cases hthird
    rfl

end Session
end ColorLowering
