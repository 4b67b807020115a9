import ColorLowering.Proofs.Constants.Lowering
import Mathlib.Data.List.Nodup

/-!
# What runs at startup

The declarations run from top to bottom, and then the module initializer runs its statements. A
constant precedes a later one unless it waits for the module initializer and the later one does not.
-/
namespace ColorLowering

/-- One piece of initialization at startup, and the constant that it belongs to. -/
structure Action where
  symbol : SymbolId
  text : String

namespace LoweredConstant

def atDeclaration (c : LoweredConstant) : List Action :=
  match c.init with
  | some (.inline _) => [⟨c.symbol, c.line⟩]
  | _ => []

def atModuleInit (c : LoweredConstant) : List Action := c.statements.map (Action.mk c.symbol)

theorem symbol_of_mem_atDeclaration {c : LoweredConstant} {x : Action}
    (hx : x ∈ c.atDeclaration) : x.symbol = c.symbol := by
  unfold atDeclaration at hx
  split at hx
  · rw [List.mem_singleton.mp hx]
  · cases hx

theorem symbol_of_mem_atModuleInit {c : LoweredConstant} {x : Action}
    (hx : x ∈ c.atModuleInit) : x.symbol = c.symbol := by
  obtain ⟨text, -, rfl⟩ := List.mem_map.mp hx
  rfl

theorem atDeclaration_of_isDeferred {c : LoweredConstant} (hc : c.isDeferred) :
    c.atDeclaration = [] := by
  unfold isDeferred at hc
  unfold atDeclaration
  split
  · rename_i hinit
    simp [hinit, Initializer.isDeferred] at hc
  · rfl

theorem atModuleInit_of_not_isDeferred {c : LoweredConstant} (hc : c.isDeferred = false) :
    c.atModuleInit = [] := by
  unfold isDeferred at hc
  unfold atModuleInit statements
  split
  · rename_i hinit
    simp [hinit, Initializer.isDeferred] at hc
  · rfl

end LoweredConstant

def startup (declared : List LoweredConstant) : List Action :=
  declared.flatMap LoweredConstant.atDeclaration ++ declared.flatMap LoweredConstant.atModuleInit

/-- At some point everything of `a` has run and nothing of `b` has. -/
def Precedes (a b : SymbolId) (actions : List Action) : Prop :=
  ∃ done next, actions = done ++ next ∧ (∀ x ∈ done, x.symbol ≠ b) ∧ ∀ x ∈ next, x.symbol ≠ a

/-- A constant of the first part precedes one of the second, unless it waits for the module
initializer and the other does not. -/
theorem precedes_startup_append {early late : List LoweredConstant} {a b : SymbolId}
    (hearly : ∀ c ∈ early, c.symbol ≠ b) (hlate : ∀ c ∈ late, c.symbol ≠ a)
    (h : (∀ c ∈ early, c.symbol = a → c.isDeferred = false) ∨
      ∀ c ∈ late, c.symbol = b → c.isDeferred = true) :
    Precedes a b (startup (early ++ late)) := by
  have declared {cs : List LoweredConstant} {x : Action}
      (hx : x ∈ cs.flatMap LoweredConstant.atDeclaration) :
      ∃ c ∈ cs, x ∈ c.atDeclaration ∧ x.symbol = c.symbol := by
    obtain ⟨c, hc, hx⟩ := List.mem_flatMap.mp hx
    exact ⟨c, hc, hx, LoweredConstant.symbol_of_mem_atDeclaration hx⟩
  have deferred {cs : List LoweredConstant} {x : Action}
      (hx : x ∈ cs.flatMap LoweredConstant.atModuleInit) :
      ∃ c ∈ cs, x ∈ c.atModuleInit ∧ x.symbol = c.symbol := by
    obtain ⟨c, hc, hx⟩ := List.mem_flatMap.mp hx
    exact ⟨c, hc, hx, LoweredConstant.symbol_of_mem_atModuleInit hx⟩
  unfold startup
  rw [List.flatMap_append, List.flatMap_append]
  obtain hinline | hdeferred := h
  · refine ⟨early.flatMap LoweredConstant.atDeclaration, _, List.append_assoc .., ?_, ?_⟩
    · intro x hx
      obtain ⟨c, hc, -, hxc⟩ := declared hx
      rw [hxc]
      exact hearly c hc
    · intro x hx hxa
      simp only [List.mem_append] at hx
      rcases hx with hx | hx | hx
      · obtain ⟨c, hc, -, hxc⟩ := declared hx
        exact hlate c hc (hxc ▸ hxa)
      · obtain ⟨c, hc, hmem, hxc⟩ := deferred hx
        rw [LoweredConstant.atModuleInit_of_not_isDeferred (hinline c hc (hxc ▸ hxa))] at hmem
        cases hmem
      · obtain ⟨c, hc, -, hxc⟩ := deferred hx
        exact hlate c hc (hxc ▸ hxa)
  · refine ⟨early.flatMap LoweredConstant.atDeclaration ++
      late.flatMap LoweredConstant.atDeclaration ++ early.flatMap LoweredConstant.atModuleInit, _,
      (List.append_assoc ..).symm, ?_, ?_⟩
    · intro x hx hxb
      simp only [List.mem_append] at hx
      rcases hx with (hx | hx) | hx
      · obtain ⟨c, hc, -, hxc⟩ := declared hx
        exact hearly c hc (hxc ▸ hxb)
      · obtain ⟨c, hc, hmem, hxc⟩ := declared hx
        rw [LoweredConstant.atDeclaration_of_isDeferred (hdeferred c hc (hxc ▸ hxb))] at hmem
        cases hmem
      · obtain ⟨c, hc, -, hxc⟩ := deferred hx
        exact hearly c hc (hxc ▸ hxb)
    · intro x hx
      obtain ⟨c, hc, -, hxc⟩ := deferred hx
      rw [hxc]
      exact hlate c hc

theorem precedes_startup {early middle late : List LoweredConstant} {first second : LoweredConstant}
    (honce : ((early ++ first :: (middle ++ second :: late)).map LoweredConstant.symbol).Nodup)
    (hdeferred : first.isDeferred → second.isDeferred) :
    Precedes first.symbol second.symbol
      (startup (early ++ first :: (middle ++ second :: late))) := by
  have regroup : early ++ first :: (middle ++ second :: late) =
      (early ++ [first]) ++ (middle ++ second :: late) := by simp
  rw [regroup] at honce ⊢
  rw [List.map_append, List.nodup_append] at honce
  obtain ⟨honceEarly, honceLate, hapart⟩ := honce
  apply precedes_startup_append
  · intro c hc
    exact hapart _ (List.mem_map_of_mem hc) _ (List.mem_map_of_mem (by simp))
  · intro c hc heq
    exact hapart first.symbol (List.mem_map_of_mem (by simp)) _ (List.mem_map_of_mem hc) heq.symm
  · cases hfirst : first.isDeferred with
    | true =>
        refine .inr fun c hc hcb => ?_
        have same : c = second := List.inj_on_of_nodup_map honceLate hc (by simp) hcb
        rw [same]
        exact hdeferred hfirst
    | false =>
        refine .inl fun c hc hca => ?_
        have same : c = first := List.inj_on_of_nodup_map honceEarly hc (by simp) hca
        rw [same]
        exact hfirst

end ColorLowering
