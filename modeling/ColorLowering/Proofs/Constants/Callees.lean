import ColorLowering.Expr.Mentions

/-!
# The calls that an expression renders

Rendering an expression renders all its parts, except an array of which only the size is asked for,
and for each call also the defaults of the arguments that it omits, whose calls may omit arguments
in turn. The scan for callees sees the parts, but no default.
-/
namespace ColorLowering.Expr

/-- `x` is a part of the expression that is rendered with it. -/
inductive Part (x : Expr) : Expr → Prop
  | self : Part x x
  | left {ty op operandTy left right} : Part x left → Part x (.binary ty op operandTy left right)
  | right {ty op operandTy left right} : Part x right → Part x (.binary ty op operandTy left right)
  | operand {ty op operand} : Part x operand → Part x (.unary ty op operand)
  | array {ty array position} : Part x array → Part x (.index ty array position)
  | position {ty array position} : Part x position → Part x (.index ty array position)
  | object {ty object field} : Part x object → Part x (.member ty object field)
  | argument {ty callee args arg} : arg ∈ args → Part x arg → Part x (.call ty callee args)
  | leaf {ty leaves leaf} : leaf ∈ leaves → Part x leaf → Part x (.aggregate ty leaves)

def FillsIn (default e : Expr) : Prop :=
  ∃ ty symbol slots args name paramTy id, Part (.call ty (.function symbol slots) args) e ∧
    Slot.optional name paramTy id default ∈ slots.drop args.length

def CallsOutright (f : SymbolId) (e : Expr) : Prop :=
  ∃ ty slots args, Part (.call ty (.function f slots) args) e

/-- A call of the function is rendered with the expression, however defaults nest. -/
inductive RendersCall (f : SymbolId) : Expr → Prop
  | outright {e} : e.CallsOutright f → RendersCall f e
  | default {default e} : FillsIn default e → RendersCall f default → RendersCall f e

def RendersInDefault (f : SymbolId) (e : Expr) : Prop :=
  ∃ default, FillsIn default e ∧ default.RendersCall f

theorem rendersCall_iff {f : SymbolId} {e : Expr} :
    e.RendersCall f ↔ e.CallsOutright f ∨ e.RendersInDefault f := by
  constructor
  · intro h
    cases h with
    | outright h => exact .inl h
    | default hfills h => exact .inr ⟨_, hfills, h⟩
  · rintro (h | ⟨default, hfills, h⟩)
    · exact .outright h
    · exact .default hfills h

theorem mem_calleesAll {f : SymbolId} {e : Expr} {es : List Expr} (he : e ∈ es)
    (h : f ∈ e.callees) : f ∈ calleesAll es := by
  induction es with
  | nil => cases he
  | cons first rest ih =>
      rw [calleesAll, List.mem_append]
      rcases List.mem_cons.mp he with rfl | hrest
      · exact .inl h
      · exact .inr (ih hrest)

theorem Part.callees {x e : Expr} (h : Part x e) {f : SymbolId} (hx : f ∈ x.callees) :
    f ∈ e.callees := by
  induction h with
  | self => exact hx
  | left _ ih => simp [Expr.callees, ih]
  | right _ ih => simp [Expr.callees, ih]
  | operand _ ih => simpa [Expr.callees] using ih
  | array _ ih => simp [Expr.callees, ih]
  | position _ ih => simp [Expr.callees, ih]
  | object _ ih => simpa [Expr.callees] using ih
  | argument hmem _ ih => simp [Expr.callees, mem_calleesAll hmem ih]
  | leaf hmem _ ih => simpa [Expr.callees] using mem_calleesAll hmem ih

inductive Mentions (symbol : SymbolId) : Expr → Prop
  | name {ty} : Mentions symbol (.name ty symbol)
  | left {ty op operandTy left right} : Mentions symbol left →
      Mentions symbol (.binary ty op operandTy left right)
  | right {ty op operandTy left right} : Mentions symbol right →
      Mentions symbol (.binary ty op operandTy left right)
  | operand {ty op operand} : Mentions symbol operand → Mentions symbol (.unary ty op operand)
  | array {ty array position} : Mentions symbol array → Mentions symbol (.index ty array position)
  | position {ty array position} : Mentions symbol position →
      Mentions symbol (.index ty array position)
  | object {ty object field} : Mentions symbol object → Mentions symbol (.member ty object field)
  | argument {ty callee args arg} : arg ∈ args → Mentions symbol arg →
      Mentions symbol (.call ty callee args)
  | leaf {ty leaves leaf} : leaf ∈ leaves → Mentions symbol leaf →
      Mentions symbol (.aggregate ty leaves)
  | size {ty array} : Mentions symbol array → Mentions symbol (.size ty array)

theorem mem_namesAll {symbol : SymbolId} {e : Expr} {es : List Expr} (he : e ∈ es)
    (h : symbol ∈ e.names) : symbol ∈ namesAll es := by
  induction es with
  | nil => cases he
  | cons first rest ih =>
      rw [namesAll, List.mem_append]
      rcases List.mem_cons.mp he with rfl | hrest
      · exact .inl h
      · exact .inr (ih hrest)

/-- The scan for names misses no place of an expression. -/
theorem Mentions.mem_names {symbol : SymbolId} {e : Expr} (h : Mentions symbol e) :
    symbol ∈ e.names := by
  induction h with
  | name => simp [names]
  | left _ ih => simp [names, ih]
  | right _ ih => simp [names, ih]
  | operand _ ih => simpa [names] using ih
  | array _ ih => simp [names, ih]
  | position _ ih => simp [names, ih]
  | object _ ih => simpa [names] using ih
  | argument hmem _ ih => simpa [names] using mem_namesAll hmem ih
  | leaf hmem _ ih => simpa [names] using mem_namesAll hmem ih
  | size _ ih => simpa [names] using ih

/-- The scan for callees misses no call outside defaults. -/
theorem CallsOutright.mem_callees {f : SymbolId} {e : Expr} (h : e.CallsOutright f) :
    f ∈ e.callees := by
  obtain ⟨ty, slots, args, hpart⟩ := h
  exact hpart.callees (by simp [Expr.callees, Callee.symbol?])

mutual
theorem callees_of_isLiteral {literals : Table SymbolId String} :
    (e : Expr) → e.isLiteral literals → e.callees = []
  | .literal .., _ => rfl
  | .name .., _ => rfl
  | .binary _ _ _ left right, h => by
      rw [isLiteral, Bool.and_eq_true] at h
      rw [callees, callees_of_isLiteral left h.1, callees_of_isLiteral right h.2,
        List.append_nil]
  | .unary _ _ operand, h => by
      rw [callees]
      exact callees_of_isLiteral operand h
  | .aggregate _ leaves, h => by
      rw [callees]
      exact calleesAll_of_allLiteral leaves h
  | .index .., h => by cases h
  | .member .., h => by cases h
  | .call .., h => by cases h
  | .size .., h => by cases h
  | .unresolved _, h => by cases h

theorem calleesAll_of_allLiteral {literals : Table SymbolId String} :
    (es : List Expr) → allLiteral literals es → calleesAll es = []
  | [], _ => rfl
  | e :: es, h => by
      rw [allLiteral, Bool.and_eq_true] at h
      rw [calleesAll, callees_of_isLiteral e h.1, calleesAll_of_allLiteral es h.2,
        List.append_nil]
end

end ColorLowering.Expr
