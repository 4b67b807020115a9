import ColorLowering.Proofs.Calls.Entered

/-!
# The places of a call

A call of a function has a place for each parameter. The places are rendered from the first to the
last: an argument that is given is converted to the type of the parameter, and where none is given
the default is filled in. The first place that fails ends the call.
-/
namespace ColorLowering

open Text

def Slot.default? : Slot → Option (ExprId × Expr)
  | .required .. => none
  | .optional _ _ id default => some (id, default)

def Slot.Fits (param : Param) : Slot → Prop
  | .required name ty => name = param.name ∧ ty = param.ty
  | .optional name ty _ _ => name = param.name ∧ ty = param.ty

structure Program.CallFits (p : Program) (symbol : SymbolId) (params : List Param)
    (slots : List Slot) : Prop where
  function : ∃ ret, (p.symbol symbol).kind = .fn params ret
  slots : List.Forall₂ Slot.Fits params slots

def Param.place (function : String) (param : Param) (default? : Option (ExprId × Expr)) :
    Option Expr → Rendering String
  | some arg => arg.renderAs param.ty
  | none =>
    match default? with
    | some (id, default) => Rendering.defaultText param.ty id default default.render
    | none => throw (.missingArgument param.name function)

def callPlaces (function : String) (params : List Param) (slots : List Slot) (args : List Expr) :
    List (Rendering String) :=
  (params.zip slots).mapIdx fun i place =>
    place.1.place function place.2.default? args[i]?

theorem length_callPlaces {function : String} {params : List Param} {slots : List Slot}
    (hslots : List.Forall₂ Slot.Fits params slots) (args : List Expr) :
    (callPlaces function params slots args).length = params.length := by
  simp [callPlaces, hslots.length_eq]

theorem callPlaces_cons (function : String) (param : Param) (params : List Param) (slot : Slot)
    (slots : List Slot) (args : List Expr) :
    callPlaces function (param :: params) (slot :: slots) args =
      param.place function slot.default? args[0]? ::
        callPlaces function params slots args.tail := by
  simp [callPlaces, List.mapIdx_cons]

theorem getElem?_callPlaces {function : String} {params : List Param} {slots : List Slot}
    {args : List Expr} {i : Nat} {param : Param} {slot : Slot} (hparam : params[i]? = some param)
    (hslot : slots[i]? = some slot) :
    (callPlaces function params slots args)[i]? =
      some (param.place function slot.default? args[i]?) := by
  have zipped : (params.zip slots)[i]? = some (param, slot) :=
    List.getElem?_zip_eq_some.mpr ⟨hparam, hslot⟩
  rw [callPlaces, List.getElem?_mapIdx, zipped, Option.map_some]

theorem Slot.Fits.ty {param : Param} {slot : Slot} (h : slot.Fits param) : slot.ty = param.ty := by
  cases slot with
  | required | optional => exact h.2

namespace Rendering

variable {s : Scope} {texts : DefaultTexts}

inductive Runs (s : Scope) :
    DefaultTexts → List (Rendering String) → List String → DefaultTexts → Prop
  | nil {texts : DefaultTexts} : Runs s texts [] [] texts
  | cons {texts next last : DefaultTexts} {r : Rendering String} {rest : List (Rendering String)}
      {text : String} {ts : List String} : r s texts = (.ok text, next) → Runs s next rest ts last →
      Runs s texts (r :: rest) (text :: ts) last

theorem Runs.length {rs : List (Rendering String)} {ts : List String} {last : DefaultTexts}
    (h : Runs s texts rs ts last) : ts.length = rs.length := by
  induction h with
  | nil => rfl
  | cons _ _ ih => rw [List.length_cons, ih, List.length_cons]

theorem Runs.getElem? {rs : List (Rendering String)} {ts : List String} {last : DefaultTexts}
    (h : Runs s texts rs ts last) {i : Nat} {r : Rendering String} (hr : rs[i]? = some r) :
    ∃ text middle next, r s middle = (.ok text, next) ∧ ts[i]? = some text := by
  induction h generalizing i with
  | nil => cases hr
  | @cons texts next last first rest text ts hfirst hrest ih =>
      cases i with
      | zero =>
          obtain rfl := Option.some.inj hr
          exact ⟨text, texts, next, hfirst, rfl⟩
      | succ i => exact ih hr

theorem Runs.solid {rs : List (Rendering String)} {ts : List String} {last : DefaultTexts}
    (h : Runs s texts rs ts last) (hrs : ∀ r ∈ rs, Ensures Solid s r) (htexts : texts.Solid) :
    ∀ t ∈ ts, Solid t := by
  induction h with
  | nil => simp
  | cons hfirst _ ih =>
      obtain ⟨hr, hrest⟩ := List.forall_mem_cons.mp hrs
      obtain ⟨hnext, hends⟩ := hr _ htexts
      rw [hfirst] at hnext hends
      exact List.forall_mem_cons.mpr ⟨hends _ rfl, ih hrest hnext⟩

/-- Renderings that are run in order all succeed, or the first that fails decides. -/
theorem sequence_cases (rs : List (Rendering String)) (s : Scope) (texts : DefaultTexts) :
    (∃ ts last, Runs s texts rs ts last ∧ rs.mapM id s texts = (.ok ts, last)) ∨
    ∃ before r after ts middle e last, rs = before ++ r :: after ∧ Runs s texts before ts middle ∧
      r s middle = (.error e, last) ∧ rs.mapM id s texts = (.error e, last) := by
  induction rs generalizing texts with
  | nil => exact .inl ⟨[], texts, .nil, rfl⟩
  | cons r rest ih =>
      rw [List.mapM_cons, id, bind_apply]
      cases hrun : r s texts with
      | mk result next =>
          cases result with
          | error e => exact .inr ⟨[], r, rest, [], texts, e, next, rfl, .nil, hrun, rfl⟩
          | ok text =>
              dsimp only
              rw [bind_apply]
              obtain ⟨ts, last, hruns, heq⟩ |
                ⟨before, r', after, ts, middle, e, last, rfl, hruns, hfails, heq⟩ := ih next
              · rw [heq]
                exact .inl ⟨text :: ts, last, .cons hrun hruns, rfl⟩
              · rw [heq]
                exact .inr ⟨r :: before, r', after, text :: ts, middle, e, last, rfl,
                  .cons hrun hruns, hfails, rfl⟩

theorem renderAll_nil (tys : List Ty) : Expr.renderAll tys [] = pure [] := by
  cases tys <;> simp [Expr.renderAll]

/-- Arguments and then defaults are rendered place by place. -/
theorem renderAll_renderDefaults (function : String) {params : List Param} {slots : List Slot}
    (hslots : List.Forall₂ Slot.Fits params slots) (args : List Expr)
    (hargs : args.length ≤ slots.length) :
    (do
      let supplied ← Expr.renderAll (slots.map Slot.ty) args
      let omitted ← Expr.renderDefaults function args.length slots
      return supplied ++ omitted) = (callPlaces function params slots args).mapM id := by
  induction hslots generalizing args with
  | nil =>
      obtain rfl := List.eq_nil_of_length_eq_zero (Nat.le_zero.mp hargs)
      simp [Expr.renderAll, Expr.renderDefaults, callPlaces]
  | @cons param slot params slots hslot _ ih =>
      rw [callPlaces_cons, List.mapM_cons]
      cases args with
      | nil =>
          rw [List.tail_nil, ← ih [] (Nat.zero_le _)]
          cases slot with
          | required name ty =>
              obtain ⟨rfl, rfl⟩ := hslot
              simp only [renderAll_nil, Expr.renderDefaults, List.length_nil, pure_bind]
              rfl
          | optional name ty id default =>
              obtain ⟨rfl, rfl⟩ := hslot
              simp only [renderAll_nil, Expr.renderDefaults, List.length_nil, pure_bind, bind_assoc]
              rfl
      | cons e es =>
          rw [List.tail_cons, ← ih es (Nat.le_of_succ_le_succ hargs), List.map_cons, hslot.ty,
            Expr.renderAll, List.length_cons, Expr.renderDefaults]
          simp only [List.getElem?_cons_zero, Param.place, Expr.renderAs, id, bind_assoc, pure_bind,
            List.cons_append]

theorem ensures_callPlaces (hs : s.Solid) (function : String) {params : List Param}
    {slots : List Slot} {args : List Expr} (hslots : Expr.SlotsPlain slots)
    (hargs : Expr.AllPlain args) :
    ∀ r ∈ callPlaces function params slots args, Ensures Solid s r := by
  induction params generalizing slots args with
  | nil => simp [callPlaces]
  | cons param params ih =>
      cases slots with
      | nil => simp [callPlaces]
      | cons slot rest =>
          have rest_plain : Expr.SlotsPlain rest := by
            cases slot with
            | required => exact hslots
            | optional => exact hslots.2
          have args_plain : Expr.AllPlain args.tail := by
            cases args with
            | nil => trivial
            | cons => exact hargs.2
          rw [callPlaces_cons, List.forall_mem_cons]
          refine ⟨?_, ih rest_plain args_plain⟩
          cases args with
          | cons e es => exact ensures_renderAs hs hargs.1 param.ty
          | nil =>
              cases slot with
              | required => exact .failed fun _ => rfl
              | optional name ty id default =>
                  exact ensures_defaultText hs (ensures_render hs default hslots.1) param.ty id

section
variable (ty : Ty) {symbol : SymbolId} {params : List Param} {slots : List Slot} {args : List Expr}

theorem render_call_of_lt (h : slots.length < args.length) :
    (Expr.call ty (.function symbol slots) args).render s texts =
      (.error (.tooManyArguments (s.resolve symbol) args.length slots.length), texts) := by
  rw [Expr.render, bind_apply]
  dsimp only [resolved]
  change (if slots.length < args.length then _ else _ : Rendering String) s texts = _
  rw [if_pos h]
  rfl

theorem render_call_of_le (hslots : List.Forall₂ Slot.Fits params slots)
    (h : args.length ≤ slots.length) :
    (Expr.call ty (.function symbol slots) args).render s texts =
      ((callPlaces (s.resolve symbol) params slots args).mapM id >>= fun ts =>
        pure (callText (s.resolve symbol) ts)) s texts := by
  rw [Expr.render, ← renderAll_renderDefaults _ hslots args h, bind_apply]
  change (if slots.length < args.length then _ else _ : Rendering String) s texts = _
  rw [if_neg (Nat.not_lt.mpr h)]
  simp only [bind_assoc, pure_bind]

end
end Rendering
end ColorLowering
