import ColorLowering.Proofs.Constants.Places
import ColorLowering.Proofs.Session.Reached

/-!
# Every constant is in one table

Where each module owns the constants that it lists, the constants of the modules lowered so far are
spread over the tables of literals, of globals and of placeholder texts, each in one of them, and no
other symbol is in any.
-/
namespace ColorLowering

structure Program.OwnsConstants (p : Program) : Prop where
  once : ∀ m, ((p.module m).constants.map Constant.symbol).Nodup
  owned : ∀ m, ∀ c ∈ (p.module m).constants, (p.symbol c.symbol).module = some m

namespace Session

open Classification

structure Placed (p : Program) (done : List ModuleId) (k : Classification) : Prop where
  aligned : k.Aligned
  one : ∀ m ∈ done, ∀ c ∈ (p.module m).constants,
    k.places c.symbol = if p.isUnplaced c then 0 else 1
  other : ∀ symbol, (∀ m ∈ done, ∀ c ∈ (p.module m).constants, c.symbol ≠ symbol) →
    k.places symbol = 0

namespace Placed

variable {p : Program} {done : List ModuleId} {k : Classification}

theorem new (target : Target) : Placed p [] (new target).tables.known :=
  ⟨aligned_empty, by simp, fun _ _ => rfl⟩

theorem places_le_one (h : Placed p done k) (symbol : SymbolId) : k.places symbol ≤ 1 := by
  by_cases hlisted : ∃ m ∈ done, ∃ c ∈ (p.module m).constants, c.symbol = symbol
  · obtain ⟨m, hm, c, hc, rfl⟩ := hlisted
    rw [h.one m hm c hc]
    split <;> omega
  · rw [h.other symbol (by simpa using hlisted)]
    omega

theorem lowered (hp : p.OwnsConstants) (h : Placed p done k) {m : ModuleId} (hm : m ∉ done)
    {ctx : ModuleContext} (hctx : ctx.program = p) {s t : EmissionState}
    (hs : s.tables.known = k)
    (hrun : Emission.module (p.module m) ctx s = (.ok (), t)) :
    Placed p (done ++ [m]) t.tables.known := by
  subst hs hctx
  have apart : ∀ m' ∈ done, ∀ c ∈ (ctx.program.module m').constants,
      ∀ d ∈ (ctx.program.module m).constants, d.symbol ≠ c.symbol := by
    intro m' hm' c hc d hd heq
    have howner := hp.owned m d hd
    rw [heq, hp.owned m' c hc] at howner
    exact hm (Option.some.inj howner ▸ hm')
  have hnew : ∀ d ∈ (ctx.program.module m).constants, s.tables.known.places d.symbol = 0 :=
    fun d hd => h.other d.symbol fun m' hm' c hc heq => apart m' hm' c hc d hd heq.symm
  obtain ⟨hone, hkept⟩ := Emission.places_of_module (hp.once m) hnew hrun
  refine ⟨(Emission.aligned_frame.within_module _).done hrun h.aligned, ?_, ?_⟩
  · intro m' hm' c hc
    rcases List.mem_append.mp hm' with hbefore | hlast
    · rw [hkept c.symbol (apart m' hbefore c hc)]
      exact h.one m' hbefore c hc
    · obtain rfl := List.mem_singleton.mp hlast
      exact hone c hc
  · intro symbol hother
    rw [hkept symbol (hother m (by simp))]
    exact h.other symbol fun m' hm' => hother m' (List.mem_append_left _ hm')

end Placed

theorem Reached.placed {p : Program} {target : Target} {done : List ModuleId} {s : Session}
    (hp : p.OwnsConstants) (hs : Reached p target done s) (hdone : done.Nodup) :
    Placed p done s.tables.known := by
  refine hs.tables_of (P := fun done tables => done.Nodup → Placed p done tables.known)
    (fun _ => .new target) (fun {done m u v} before hrun hdone => ?_) hdone
  rw [List.nodup_append] at hdone
  obtain ⟨hbefore, -, hapart⟩ := hdone
  have hm : m ∉ done := fun h => hapart m h m (by simp) rfl
  exact (before hbefore).lowered hp hm rfl rfl hrun

/-- Where a history lowers every module at most once, the tables of literals, globals and
placeholder texts share no symbol, the strategies are those of the globals and only literals are
folded. Each constant of a lowered module is in exactly one of the three, a placeholder without
initializer in none, and no constant of another module is in any table. -/
theorem constants_in_one_table {p : Program} (hp : p.OwnsConstants) (target : Target)
    (steps : List Step) (honce : (loweredBy p (new target) steps).Nodup) :
    let done := loweredBy p (new target) steps
    let k := ((new target).after p steps).tables.known
    (∀ symbol, ¬(k.literals.contains symbol ∧ k.globals.contains symbol) ∧
      ¬(k.literals.contains symbol ∧ k.defaults.contains symbol) ∧
      ¬(k.globals.contains symbol ∧ k.defaults.contains symbol)) ∧
    (∀ symbol, k.strategies.contains symbol = k.globals.contains symbol) ∧
    (∀ symbol, k.folded.contains symbol → k.literals.contains symbol) ∧
    (∀ m ∈ done, ∀ c ∈ (p.module m).constants, k.places c.symbol =
      if (p.symbol c.symbol).isPlaceholder && c.init.isNone then 0 else 1) ∧
    ∀ m, m ∉ done → ∀ c ∈ (p.module m).constants,
      k.literals.contains c.symbol = false ∧ k.globals.contains c.symbol = false ∧
      k.defaults.contains c.symbol = false ∧ k.strategies.contains c.symbol = false ∧
      k.folded.contains c.symbol = false := by
  have start : Reached p target [] (new target) := .new
  have placed := (start.after steps).placed hp honce
  intro done k
  refine ⟨fun symbol => ?_, placed.aligned.strategies, placed.aligned.folded, placed.one, ?_⟩
  · have atMost : k.places symbol ≤ 1 := placed.places_le_one symbol
    rw [places] at atMost
    refine ⟨?_, ?_, ?_⟩ <;> rintro ⟨h, h'⟩ <;>
      simp only [h, h', Bool.toNat_true] at atMost <;> omega
  · intro m hm c hc
    have absent : k.places c.symbol = 0 := by
      refine placed.other c.symbol fun m' hm' d hd heq => hm ?_
      have howner := hp.owned m' d hd
      rw [heq, hp.owned m c hc] at howner
      exact Option.some.inj howner ▸ hm'
    simp only [places, Nat.add_eq_zero_iff, Bool.toNat_eq_zero] at absent
    obtain ⟨⟨hliterals, hglobals⟩, hdefaults⟩ := absent
    refine ⟨hliterals, hglobals, hdefaults, ?_, ?_⟩
    · exact (placed.aligned.strategies _).trans hglobals
    · rw [Bool.eq_false_iff]
      intro hfolded
      rw [placed.aligned.folded _ hfolded] at hliterals
      cases hliterals

/-- The first module lists a literal, a placeholder with and one without initializer and a variable;
the second fails in a body after its constant was entered. -/
def placedProgram : Program where
  symbols := #[⟨"k", some ⟨0⟩, .var (.scalar .int) false⟩,
    ⟨"f$p", some ⟨0⟩, .var (.scalar .int) false⟩, ⟨"x", some ⟨0⟩, .var (.scalar .int) true⟩,
    ⟨"f$q", some ⟨0⟩, .var (.scalar .int) false⟩, ⟨"y", some ⟨1⟩, .var (.scalar .int) true⟩,
    ⟨"g", some ⟨1⟩, .fn [] .void⟩]
  modules := #[⟨"first", "", [], [⟨⟨0⟩, some (.literal (.scalar .int) (.scalar (.int 3)))⟩,
      ⟨⟨1⟩, none⟩, ⟨⟨2⟩, none⟩, ⟨⟨3⟩, some (.name (.scalar .int) ⟨2⟩)⟩], []⟩,
    ⟨"second", "", [], [⟨⟨4⟩, none⟩], [⟨⟨5⟩, [.eval (.call .void .computed [])]⟩]⟩]

theorem placed_constants :
    loweredBy placedProgram (new .standard) [.module ⟨0⟩, .module ⟨1⟩] = [⟨0⟩] ∧
    let k := ((new .standard).after placedProgram [.module ⟨0⟩, .module ⟨1⟩]).tables.known
    k.places ⟨0⟩ = 1 ∧ k.places ⟨1⟩ = 0 ∧ k.places ⟨2⟩ = 1 ∧ k.places ⟨3⟩ = 1 ∧
      k.globals.contains ⟨4⟩ = false := by
  have owns : placedProgram.OwnsConstants := by
    constructor <;> rintro ⟨_ | _ | n⟩ <;> simp [placedProgram, Program.module, Program.symbol]
  have lowered : loweredBy placedProgram (new .standard) [.module ⟨0⟩, .module ⟨1⟩] = [⟨0⟩] := rfl
  obtain ⟨-, -, -, placed, absent⟩ := constants_in_one_table owns .standard
    [.module ⟨0⟩, .module ⟨1⟩] (by rw [lowered]; simp)
  rw [lowered] at placed absent
  have listed := placed ⟨0⟩ (by simp)
  refine ⟨lowered, ?_, ?_, ?_, ?_, (absent ⟨1⟩ (by simp) ⟨⟨4⟩, none⟩ (.head _)).2.1⟩
  · exact listed ⟨⟨0⟩, _⟩ (.head _)
  · exact listed ⟨⟨1⟩, _⟩ (.tail _ (.head _))
  · exact listed ⟨⟨2⟩, _⟩ (.tail _ (.tail _ (.head _)))
  · exact listed ⟨⟨3⟩, _⟩ (.tail _ (.tail _ (.tail _ (.head _))))

end Session
end ColorLowering
