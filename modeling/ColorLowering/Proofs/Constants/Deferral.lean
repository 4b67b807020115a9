import Mathlib.Data.List.Induction
import ColorLowering.Proofs.Agreement.Module
import ColorLowering.Proofs.Constants.Callees
import ColorLowering.Proofs.Constants.Declarations

/-!
# Which constants wait for the module initializer

One pass over the constants computes a closure: a constant waits if its type or its initializer
makes it wait, or if it mentions one before it that does. When a constant is looked at, those before
it that wait are registered as deferred, and no other symbol of the module is.
-/
namespace ColorLowering

/-- A call in the expression, at whatever depth, names the symbol. -/
inductive Expr.Calls (f : SymbolId) : Expr → Prop
  | call {ty callee args} : callee.symbol? = some f → Calls f (.call ty callee args)
  | left {ty op operandTy left right} : Calls f left → Calls f (.binary ty op operandTy left right)
  | right {ty op operandTy left right} : Calls f right →
      Calls f (.binary ty op operandTy left right)
  | operand {ty op operand} : Calls f operand → Calls f (.unary ty op operand)
  | array {ty array position} : Calls f array → Calls f (.index ty array position)
  | position {ty array position} : Calls f position → Calls f (.index ty array position)
  | object {ty object field} : Calls f object → Calls f (.member ty object field)
  | argument {ty callee args arg} : arg ∈ args → Calls f arg → Calls f (.call ty callee args)
  | leaf {ty leaves leaf} : leaf ∈ leaves → Calls f leaf → Calls f (.aggregate ty leaves)
  | size {ty array} : Calls f array → Calls f (.size ty array)

namespace Expr

theorem Calls.mem_callees {f : SymbolId} {e : Expr} (h : Calls f e) : f ∈ e.callees := by
  induction h with
  | call hcallee => simp [callees, hcallee]
  | left _ ih => simp [callees, ih]
  | right _ ih => simp [callees, ih]
  | operand _ ih => simpa [callees] using ih
  | array _ ih => simp [callees, ih]
  | position _ ih => simp [callees, ih]
  | object _ ih => simpa [callees] using ih
  | argument hmem _ ih => simp [callees, mem_calleesAll hmem ih]
  | leaf hmem _ ih => simpa [callees] using mem_calleesAll hmem ih
  | size _ ih => simpa [callees] using ih

mutual
theorem calls_of_mem_callees {f : SymbolId} : (e : Expr) → f ∈ e.callees → Calls f e
  | .literal .., h | .name .., h | .unresolved _, h => by simp [callees] at h
  | .binary _ _ _ left right, h => by
      rw [callees, List.mem_append] at h
      exact h.elim (fun h => .left (calls_of_mem_callees left h))
        fun h => .right (calls_of_mem_callees right h)
  | .unary _ _ operand, h => .operand (calls_of_mem_callees operand (by simpa [callees] using h))
  | .index _ array position, h => by
      rw [callees, List.mem_append] at h
      exact h.elim (fun h => .array (calls_of_mem_callees array h))
        fun h => .position (calls_of_mem_callees position h)
  | .member _ object _, h => .object (calls_of_mem_callees object (by simpa [callees] using h))
  | .call _ callee args, h => by
      rw [callees, List.mem_append, Option.mem_toList] at h
      obtain hcallee | hargs := h
      · exact .call hcallee
      · obtain ⟨arg, harg, hcalls⟩ := exists_calls_of_mem_calleesAll args hargs
        exact .argument harg hcalls
  | .aggregate _ leaves, h => by
      obtain ⟨leaf, hleaf, hcalls⟩ :=
        exists_calls_of_mem_calleesAll leaves (by simpa [callees] using h)
      exact .leaf hleaf hcalls
  | .size _ array, h => .size (calls_of_mem_callees array (by simpa [callees] using h))

theorem exists_calls_of_mem_calleesAll {f : SymbolId} :
    (es : List Expr) → f ∈ calleesAll es → ∃ e ∈ es, Calls f e
  | [], h => by simp [calleesAll] at h
  | e :: es, h => by
      rw [calleesAll, List.mem_append] at h
      obtain hfirst | hrest := h
      · exact ⟨e, List.mem_cons_self, calls_of_mem_callees e hfirst⟩
      · obtain ⟨x, hx, hcalls⟩ := exists_calls_of_mem_calleesAll es hrest
        exact ⟨x, List.mem_cons_of_mem _ hx, hcalls⟩
end

theorem mem_callees_iff {f : SymbolId} {e : Expr} : f ∈ e.callees ↔ Calls f e :=
  ⟨calls_of_mem_callees e, Calls.mem_callees⟩

mutual
theorem mentions_of_mem_names {symbol : SymbolId} : (e : Expr) → symbol ∈ e.names →
    Mentions symbol e
  | .literal .., h | .unresolved _, h => by simp [names] at h
  | .name _ _, h => by
      obtain rfl := List.mem_singleton.mp (by simpa [names] using h)
      exact .name
  | .binary _ _ _ left right, h => by
      rw [names, List.mem_append] at h
      exact h.elim (fun h => .left (mentions_of_mem_names left h))
        fun h => .right (mentions_of_mem_names right h)
  | .unary _ _ operand, h => .operand (mentions_of_mem_names operand (by simpa [names] using h))
  | .index _ array position, h => by
      rw [names, List.mem_append] at h
      exact h.elim (fun h => .array (mentions_of_mem_names array h))
        fun h => .position (mentions_of_mem_names position h)
  | .member _ object _, h => .object (mentions_of_mem_names object (by simpa [names] using h))
  | .call _ _ args, h => by
      obtain ⟨arg, harg, hmentions⟩ :=
        exists_mentions_of_mem_namesAll args (by simpa [names] using h)
      exact .argument harg hmentions
  | .aggregate _ leaves, h => by
      obtain ⟨leaf, hleaf, hmentions⟩ :=
        exists_mentions_of_mem_namesAll leaves (by simpa [names] using h)
      exact .leaf hleaf hmentions
  | .size _ array, h => .size (mentions_of_mem_names array (by simpa [names] using h))

theorem exists_mentions_of_mem_namesAll {symbol : SymbolId} :
    (es : List Expr) → symbol ∈ namesAll es → ∃ e ∈ es, Mentions symbol e
  | [], h => by simp [namesAll] at h
  | e :: es, h => by
      rw [namesAll, List.mem_append] at h
      obtain hfirst | hrest := h
      · exact ⟨e, List.mem_cons_self, mentions_of_mem_names e hfirst⟩
      · obtain ⟨x, hx, hmentions⟩ := exists_mentions_of_mem_namesAll es hrest
        exact ⟨x, List.mem_cons_of_mem _ hx, hmentions⟩
end

theorem mem_names_iff {symbol : SymbolId} {e : Expr} : symbol ∈ e.names ↔ Mentions symbol e :=
  ⟨mentions_of_mem_names e, Mentions.mem_names⟩

end Expr

namespace Constant

def CallsHome (c : Constant) (p : Program) (m : ModuleId) : Prop :=
  ∃ init f, c.init = some init ∧ init.Calls f ∧ (p.symbol f).module = some m

def Mentions (c : Constant) (symbol : SymbolId) : Prop :=
  ∃ init, c.init = some init ∧ init.Mentions symbol

def IsSpelledOut (c : Constant) (p : Program) : Prop :=
  (p.symbol c.symbol).ty = .string ∧ c.init.any Expr.isAggregate = true

end Constant

/-- The declared constants of a module whose value the legacy dialect leaves to the module
initializer: the least set that is closed under these rules. -/
inductive Program.Defers (p : Program) (t : Target) (m : ModuleId) (declared : Constant → Bool) :
    Constant → Prop
  | type {c : Constant} : c ∈ (p.module m).constants → declared c →
      t.IsStructOrContainer (p.symbol c.symbol).ty → Defers p t m declared c
  | spelledOut {c : Constant} : c ∈ (p.module m).constants → declared c →
      c.IsSpelledOut p → Defers p t m declared c
  | call {c : Constant} : c ∈ (p.module m).constants → declared c →
      c.CallsHome p m → Defers p t m declared c
  | mention {before after : List Constant} {c earlier : Constant} :
      (p.module m).constants = before ++ c :: after → declared c →
      earlier ∈ before → Defers p t m declared earlier → c.Mentions earlier.symbol →
      Defers p t m declared c

section
variable {p : Program} {t : Target} {m : ModuleId} {declared : Constant → Bool}
  {before after : List Constant} {c : Constant}

theorem eq_of_split {cs before' after' : List Constant} (honce : (cs.map Constant.symbol).Nodup)
    (hcs : cs = before ++ c :: after) (hcs' : cs = before' ++ c :: after') : before = before' := by
  have apart := honce.of_map
  rw [hcs', List.nodup_append, List.nodup_cons] at apart
  have first : c ∉ before' := fun h => apart.2.2 c h c List.mem_cons_self rfl
  rw [hcs] at hcs'
  exact ((List.append_cons_inj_of_notMem first apart.2.1.1).mp hcs'.symm).1.symm

/-- Whether a constant waits, given which of those before it do. -/
theorem Program.defers_iff (honce : ((p.module m).constants.map Constant.symbol).Nodup)
    (hcs : (p.module m).constants = before ++ c :: after) :
    p.Defers t m declared c ↔ declared c ∧ (t.IsStructOrContainer (p.symbol c.symbol).ty ∨
      c.IsSpelledOut p ∨ c.CallsHome p m ∨
      ∃ earlier ∈ before, p.Defers t m declared earlier ∧ c.Mentions earlier.symbol) := by
  constructor
  · intro h
    cases h with
    | type _ hc htype => exact ⟨hc, .inl htype⟩
    | spelledOut _ hc hstring => exact ⟨hc, .inr (.inl hstring)⟩
    | call _ hc hcalls => exact ⟨hc, .inr (.inr (.inl hcalls))⟩
    | mention hcs' hc hearlier hdefers hmentions =>
        rw [eq_of_split honce hcs hcs']
        exact ⟨hc, .inr (.inr (.inr ⟨_, hearlier, hdefers, hmentions⟩))⟩
  · have listed : c ∈ (p.module m).constants := by simp [hcs]
    rintro ⟨hc, htype | hstring | hcalls | ⟨earlier, hearlier, hdefers, hmentions⟩⟩
    · exact .type listed hc htype
    · exact .spelledOut listed hc hstring
    · exact .call listed hc hcalls
    · exact .mention hcs hc hearlier hdefers hmentions

end

namespace Emission

variable {ctx : ModuleContext} {s t u : EmissionState} {c : Constant}

/-- Of a constant that is no literal and no placeholder, the survey notes whether its initializer
calls home. -/
theorem needsModuleInit_of_surveyConstant (hrun : surveyConstant c ctx s = (.ok (), t))
    (hliteral : t.tables.known.literals.contains c.symbol = false)
    (hplaceholder : (ctx.program.symbol c.symbol).isPlaceholder = false) :
    t.tables.known.needsModuleInit.contains c.symbol = true ↔
      s.tables.known.needsModuleInit.contains c.symbol = true ∨
        c.CallsHome ctx.program ctx.module := by
  have some_home {init : Expr} : (ctx.homeCallees init).isEmpty = false ↔
      ∃ f, init.Calls f ∧ (ctx.program.symbol f).module = some ctx.module := by
    rw [List.isEmpty_eq_false_iff_exists_mem]
    simp [ModuleContext.homeCallees, ModuleContext.isHome, Expr.mem_callees_iff]
  unfold surveyConstant at hrun
  cases hinit : c.init with
  | none =>
      rw [hinit] at hrun
      cases hrun
      simp [Constant.CallsHome, hinit]
  | some init =>
      have calls : c.CallsHome ctx.program ctx.module ↔ (ctx.homeCallees init).isEmpty = false := by
        rw [some_home]
        simp [Constant.CallsHome, hinit]
      rw [hinit] at hrun
      obtain ⟨k, v, hknown, hrun⟩ := bind_eq_ok.mp hrun
      cases hknown
      by_cases hwhole : (!init.isAggregate && init.isLiteral s.tables.known.literals) = true
      · rw [if_pos hwhole] at hrun
        rw [Bool.and_eq_true, Bool.not_eq_true'] at hwhole
        cases surveyLiteral_ok hinit hwhole.1 hwhole.2 hrun with
        | bare hbare =>
            rw [hinit] at hbare
            cases hbare
        | folded _ _ _ _ => simp [EmissionState.withKnown, Classification.addLiteral] at hliteral
        | verbatim _ _ _ _ _ =>
            simp [EmissionState.withKnown, Classification.addLiteral] at hliteral
        | calling hinit' hcalling =>
            rw [hinit] at hinit'
            cases hinit'
            simp [hwhole] at hcalling
        | waiting hinit' hwaiting =>
            rw [hinit] at hinit'
            cases hinit'
            simp [hwhole] at hwaiting
      · rw [if_neg hwhole] at hrun
        simp only [surveyCallees, bind_apply, read_apply, known_apply, hplaceholder,
          Bool.or_false] at hrun
        rw [calls]
        split at hrun
        · cases hrun
          simp [Classification.addCallees, *]
        · cases hrun
          simp [Classification.addNeedsModuleInit, *]

/-- After the survey it is known of every declared constant whether it calls home. -/
theorem needsModuleInit_of_surveyConstants {cs before after : List Constant}
    (hrun : surveyConstants cs ctx s = (.ok (), t)) (honce : (cs.map Constant.symbol).Nodup)
    (hcs : cs = before ++ c :: after) (hdeclared : ctx.program.declares t.tables.known c = true) :
    t.tables.known.needsModuleInit.contains c.symbol = true ↔
      s.tables.known.needsModuleInit.contains c.symbol = true ∨
        c.CallsHome ctx.program ctx.module := by
  rw [Program.declares, Bool.and_eq_true, Bool.not_eq_true', Bool.not_eq_true'] at hdeclared
  rw [hcs, List.map_append, List.map_cons, List.nodup_append, List.nodup_cons] at honce
  obtain ⟨-, ⟨hlater, -⟩, hearlier⟩ := honce
  rw [hcs, surveyConstants_append, surveyConstants] at hrun
  obtain ⟨_, u, hbefore, hrun⟩ := bind_eq_ok.mp hrun
  obtain ⟨_, v, hc, hafter⟩ := bind_eq_ok.mp hrun
  have entered := sameEntry_of_surveyConstants hbefore
    fun d hd heq => hearlier _ (List.mem_map_of_mem hd) c.symbol List.mem_cons_self heq
  have apart : ∀ d ∈ after, d.symbol ≠ c.symbol :=
    fun d hd heq => hlater (heq ▸ List.mem_map_of_mem hd)
  have kept := sameEntry_of_surveyConstants hafter apart
  rw [Table.contains, ← kept.needsModuleInit, Table.contains, entered.needsModuleInit]
  apply needsModuleInit_of_surveyConstant hc _ hdeclared.2
  rw [Table.contains, kept.literal]
  exact hdeclared.1

theorem isForced_iff {k : Classification} : isForced ctx k c = true ↔
    ctx.target.isModern = false ∧ ∃ init, c.init = some init ∧
      (((ctx.program.symbol c.symbol).isPlaceholder = false ∧
          k.needsModuleInit.contains c.symbol = true) ∨
        ∃ symbol, init.Mentions symbol ∧ ctx.isHome symbol = true ∧
          k.isDeferred symbol = true) := by
  unfold isForced
  cases hinit : c.init with
  | none => simp
  | some init => simp [ModuleContext.readsDeferred, Expr.mem_names_iff]

/-- Of the symbols of the module, those of the constants in `before` that are in `D` are registered
as deferred, and no other is. -/
def RegistersAsDeferred (ctx : ModuleContext) (D : Constant → Prop) (before : List Constant)
    (k : Classification) : Prop :=
  ∀ symbol, ctx.isHome symbol = true →
    (k.isDeferred symbol = true ↔ ∃ c ∈ before, c.symbol = symbol ∧ D c)

theorem RegistersAsDeferred.constant {D : Constant → Prop} {before : List Constant}
    {out : Option LoweredConstant} (h : RegistersAsDeferred ctx D before s.tables.known)
    (hrun : constant c ctx s = (.ok out, t)) (hnew : ∀ d ∈ before, d.symbol ≠ c.symbol)
    (homitted : ctx.program.declares s.tables.known c = false → ¬ D c)
    (hdeclared : ctx.program.declares s.tables.known c = true →
      (D c ↔ isForced ctx s.tables.known c = true ∨ (ctx.target.isModern = false ∧
        ctx.target.IsStructOrContainer (ctx.program.symbol c.symbol).ty) ∨
        c.IsSpelledOut ctx.program)) :
    RegistersAsDeferred ctx D (before ++ [c]) t.tables.known := by
  intro symbol hhome
  simp only [List.mem_append, List.mem_singleton, or_and_right, exists_or, exists_eq_left]
  by_cases hsymbol : c.symbol = symbol
  · subst hsymbol
    have earlier : ¬ ∃ d ∈ before, d.symbol = c.symbol ∧ D d := by
      rintro ⟨d, hd, heq, -⟩
      exact hnew d hd heq
    rw [or_iff_right earlier, and_iff_right rfl]
    obtain ⟨rfl, homits⟩ | ⟨lowered, rfl, hliteral, hplaceholder, -⟩ := constant_ok hrun
    · have absent : s.tables.known.isDeferred c.symbol = false := by
        rw [Bool.eq_false_iff]
        exact fun hdeferred => earlier ((h _ hhome).mp hdeferred)
      rw [Classification.isDeferred, homits.strategies, ← Classification.isDeferred, absent]
      exact iff_of_false Bool.false_ne_true (homitted homits.not_declares)
    · rw [isDeferred_of_constant hrun,
        hdeclared (by simp [Program.declares, hliteral, hplaceholder])]
      rfl
  · have same := (sameEntry_of_constant hrun hsymbol).strategy
    rw [Classification.isDeferred, ← same, ← Classification.isDeferred, h _ hhome]
    simp [hsymbol]

/-- The pass over the constants registers the set `D` as deferred if `D` grows with the pass: it
holds a declared constant exactly if this has to wait for what is known by then. -/
theorem registersAsDeferred_of_constantList {D : Constant → Prop} {cs before after : List Constant}
    {out : List LoweredConstant} (honce : (cs.map Constant.symbol).Nodup)
    (hstart : RegistersAsDeferred ctx D [] s.tables.known)
    (homitted : ∀ c ∈ cs, ctx.program.declares s.tables.known c = false → ¬ D c)
    (hdeclared : ∀ before c after k, cs = before ++ c :: after →
      k.needsModuleInit.get? c.symbol = s.tables.known.needsModuleInit.get? c.symbol →
      RegistersAsDeferred ctx D before k → ctx.program.declares s.tables.known c = true →
      (D c ↔ isForced ctx k c = true ∨ (ctx.target.isModern = false ∧
        ctx.target.IsStructOrContainer (ctx.program.symbol c.symbol).ty) ∨
        c.IsSpelledOut ctx.program))
    (hcs : cs = before ++ after) (hrun : constantList before ctx s = (.ok out, t)) :
    RegistersAsDeferred ctx D before t.tables.known := by
  induction before using List.reverseRecOn generalizing after out t with
  | nil =>
      cases hrun
      exact hstart
  | append_singleton before c ih =>
      obtain ⟨early, u, last, hbefore, hlast, -⟩ := constantList_append_ok hrun
      obtain ⟨lowered, v, others, hc, hnil, -⟩ := constantList_cons_ok hlast
      cases hnil
      have split : cs = before ++ c :: after := by rw [hcs, List.append_assoc]; rfl
      have apart := honce
      rw [split, List.map_append, List.map_cons, List.nodup_append] at apart
      have new : ∀ d ∈ before, d.symbol ≠ c.symbol := fun d hd =>
        apart.2.2 _ (List.mem_map_of_mem hd) _ List.mem_cons_self
      have literals := ((literals_frame.within_constantList _).done hbefore).1
      have same : ctx.program.declares u.tables.known = ctx.program.declares s.tables.known := by
        funext c
        rw [Program.declares, Program.declares, literals]
      have earlier := ih (by rw [split]) hbefore
      refine earlier.constant hc new ?_ ?_ <;> rw [same]
      · exact homitted c (by simp [split])
      · have entered := sameEntry_of_constantList hbefore new
        exact hdeclared before c after _ split entered.needsModuleInit.symm earlier

end Emission
end ColorLowering
