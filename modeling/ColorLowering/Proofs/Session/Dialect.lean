import ColorLowering.Proofs.Dialect.Emission
import ColorLowering.Proofs.Session.Rollback

/-!
# Programs that the dialect makes no difference to

The dialects differ in how structs and containers are declared and given their first value, and in
what they leave to the module initializer. A program without structs and containers of its own, whose
initializers call no function at home, is lowered alike in both.
-/
namespace ColorLowering

/-- A program in which the dialect has nothing to decide. -/
structure Program.IgnoresDialect (p : Program) (t : Target) : Prop where
  /-- What an initializer calls by name is a function. -/
  wellFormed : ∀ {m symbol init}, ⟨symbol, some init⟩ ∈ (p.module m).constants →
    ∀ f ∈ init.callees, (p.symbol f).isFunction
  calls : ∀ {m symbol init}, ⟨symbol, some init⟩ ∈ (p.module m).constants →
    ∀ f ∈ init.callees, (p.symbol f).isFunction → (p.symbol f).module ≠ some m
  constants : ∀ {m}, ∀ c ∈ (p.module m).constants, t.shape (p.symbol c.symbol).ty ≠ .aggregate
  params : ∀ {m}, ∀ f ∈ (p.module m).functions, ∀ params ret,
    (p.symbol f.symbol).kind = .fn params ret → ∀ q ∈ params, t.shape q.ty ≠ .aggregate
  locals : ∀ {m}, ∀ f ∈ (p.module m).functions, ∀ d ∈ Stmt.declarationsAll f.body,
    t.shape (p.symbol d.1).ty ≠ .aggregate
  strings : ∀ {m symbol init}, ⟨symbol, some init⟩ ∈ (p.module m).constants →
    (p.symbol symbol).ty = .string → init.isAggregate = false
  /-- An aggregate that initializes a constant has the type of the constant. -/
  declared : ∀ {m symbol ty leaves},
    ⟨symbol, some (.aggregate ty leaves)⟩ ∈ (p.module m).constants → (p.symbol symbol).ty = ty
  initializers : ∀ {m symbol init}, ⟨symbol, some init⟩ ∈ (p.module m).constants →
    Emission.Native t init.initialTemporaries
  placeholders : ∀ {m symbol init}, ⟨symbol, some init⟩ ∈ (p.module m).constants →
    (p.symbol symbol).isPlaceholder → Emission.Native t init.temporaries
  localInitializers : ∀ {m}, ∀ f ∈ (p.module m).functions, ∀ d ∈ Stmt.declarationsAll f.body,
    ∀ init ∈ d.2, Emission.Native t init.initialTemporaries
  values : ∀ {m}, ∀ f ∈ (p.module m).functions, ∀ e ∈ Stmt.valuesAll f.body,
    Emission.Native t e.temporaries

theorem Program.IgnoresDialect.module {p : Program} {t : Target} (h : p.IgnoresDialect t)
    (m : ModuleId) : Emission.DialectFree ⟨p, t, m⟩ (p.module m) where
  declarable := by
    rintro ⟨symbol, init⟩ hc
    refine ⟨h.constants _ hc, ?_⟩
    rintro hstring e rfl
    rw [h.strings hc hstring]
    simp
  constants := by
    rintro ⟨symbol, init⟩ hc e rfl
    exact h.initializers hc
  placeholders := by
    rintro ⟨symbol, init⟩ hc hplaceholder e rfl haggregate
    cases e with
    | aggregate ty leaves =>
        rw [h.declared hc]
        exact h.placeholders hc hplaceholder ty List.mem_cons_self
    | _ => cases haggregate
  calls := by
    rintro ⟨symbol, init⟩ hc e rfl
    refine List.filter_eq_nil_iff.mpr fun f hf => ?_
    simp [ModuleContext.isHome, h.calls hc f hf (h.wellFormed hc f hf)]
  params := h.params
  locals f hf d hd := ⟨h.locals f hf d hd, h.localInitializers f hf d hd⟩
  values := h.values

namespace Session

def retarget (s : Session) (t : Target) : Session := { s with target := t }

variable {p : Program} {s : Session} {t : Target}

theorem lowerModule_retarget (h : p.IgnoresDialect s.target) (ht : s.target.Akin t)
    (hs : s.tables.known.Calm) (m : ModuleId) :
    (lowerModule p m).run (s.retarget t) =
        (((lowerModule p m).run s).1, ((lowerModule p m).run s).2.retarget t) ∧
      ((lowerModule p m).run s).2.tables.known.Calm ∧
      ((lowerModule p m).run s).2.target = s.target := by
  obtain ⟨hsame, hcalm⟩ := @Emission.ignoresTarget_module ⟨p, s.target, m⟩ t ht _ (h.module m)
    s.emissionState hs
  cases hrun : Emission.module (p.module m) ⟨p, s.target, m⟩ s.emissionState with
  | mk result out =>
      rw [hrun] at hsame hcalm
      have hrun' : Emission.module (p.module m) ⟨p, (s.retarget t).target, m⟩
          (s.retarget t).emissionState = (result, out) := hsame.symm
      cases result with
      | ok u =>
          rw [run_of_module_ok hrun, run_of_module_ok hrun']
          exact ⟨rfl, hcalm, rfl⟩
      | error e =>
          rw [run_of_module_error hrun, run_of_module_error hrun']
          exact ⟨rfl, hs, rfl⟩

theorem forM_retarget (h : p.IgnoresDialect s.target) (ht : s.target.Akin t)
    (hs : s.tables.known.Calm) (ms : List ModuleId) :
    (ms.forM (lowerModule p)).run (s.retarget t) =
      (((ms.forM (lowerModule p)).run s).1, ((ms.forM (lowerModule p)).run s).2.retarget t) := by
  rw [List.forM_eq_forM]
  induction ms generalizing s with
  | nil => rfl
  | cons m rest ih =>
      obtain ⟨hsame, hcalm, htarget⟩ := lowerModule_retarget h ht hs m
      rw [List.forM_cons, run_bind, run_bind, hsame]
      cases hrun : (lowerModule p m).run s with
      | mk result s' =>
          rw [hrun] at hcalm htarget
          cases result with
          | error e => rfl
          | ok u => exact ih (htarget ▸ h) (htarget ▸ ht) hcalm

theorem text_eq_of_akin {t t' : Target} (h : t.Akin t') : Preamble.text t = Preamble.text t' := by
  rw [Preamble.text, Preamble.text, Preamble.slots, h.vectorNamespace, h.precision, h.scalarType]
  rfl

/-- A program without structs and containers, whose initializers call no function of their own
module, is lowered alike in both dialects, for each precision and vector library. -/
theorem dialects_agree (p : Program) (precision : Precision) (ns : String)
    (h : p.IgnoresDialect ⟨.modern, precision, ns⟩) :
    lower p ⟨.modern, precision, ns⟩ = lower p ⟨.legacy, precision, ns⟩ := by
  have akin : Target.Akin ⟨.modern, precision, ns⟩ ⟨.legacy, precision, ns⟩ := ⟨rfl, rfl⟩
  have start : new ⟨.legacy, precision, ns⟩ =
      (new ⟨.modern, precision, ns⟩).retarget ⟨.legacy, precision, ns⟩ := by
    rw [new, new, text_eq_of_akin akin]
    rfl
  have same := forM_retarget (s := new ⟨.modern, precision, ns⟩) h akin
    Classification.calm_empty p.moduleIds
  unfold lower lowerAll
  rw [start, same]
  cases (p.moduleIds.forM (lowerModule p)).run (new ⟨.modern, precision, ns⟩) with
  | mk result s => cases result <;> rfl

def one : Expr := .literal (.scalar .int) (.scalar (.int 1))

def ones (size : Nat) : Expr := .aggregate (.array (.scalar .int) size) (List.replicate size one)

def callOfOne : Expr :=
  .call (.scalar .int) (.function ⟨0⟩ [.required "a" (.scalar .int)]) [one]

def vectorProgram : Program where
  symbols := #[⟨"f", some ⟨0⟩, .fn [⟨"a", .scalar .int, .read⟩] (.scalar .int)⟩,
    ⟨"v", some ⟨1⟩, .var (.array (.scalar .int) 2) false⟩,
    ⟨"x", some ⟨1⟩, .var (.scalar .int) false⟩, ⟨"main", some ⟨1⟩, .fn [] .void⟩,
    ⟨"w", some ⟨1⟩, .var (.array (.scalar .int) 5) true⟩]
  modules := #[⟨"lib", "", [], [], [⟨⟨0⟩, [.ret (some one)]⟩]⟩,
    ⟨"m", "", [], [⟨⟨1⟩, some (ones 2)⟩, ⟨⟨2⟩, some callOfOne⟩],
      [⟨⟨3⟩, [.declare ⟨4⟩ (some (ones 5))]⟩]⟩]

theorem constants_vectorProgram {m : ModuleId} {c : Constant}
    (hc : c ∈ (vectorProgram.module m).constants) :
    m = ⟨1⟩ ∧ (c = ⟨⟨1⟩, some (ones 2)⟩ ∨ c = ⟨⟨2⟩, some callOfOne⟩) := by
  obtain ⟨_ | _ | n⟩ := m
  · cases hc
  · exact ⟨rfl, by simpa [vectorProgram, Program.module] using hc⟩
  · simp [vectorProgram, Program.module] at hc

theorem functions_vectorProgram {m : ModuleId} {f : Function}
    (hf : f ∈ (vectorProgram.module m).functions) :
    f = ⟨⟨0⟩, [.ret (some one)]⟩ ∨ f = ⟨⟨3⟩, [.declare ⟨4⟩ (some (ones 5))]⟩ := by
  obtain ⟨_ | _ | n⟩ := m
  · exact .inl (List.mem_singleton.mp hf)
  · exact .inr (List.mem_singleton.mp hf)
  · simp [vectorProgram, Program.module] at hf

theorem ignoresDialect_vectorProgram : vectorProgram.IgnoresDialect .standard where
  wellFormed hc f hf := by
    obtain ⟨-, h | h⟩ := constants_vectorProgram hc <;> cases h
    · cases hf
    · obtain rfl := List.mem_singleton.mp hf
      rfl
  calls hc f hf _ := by
    obtain ⟨rfl, h | h⟩ := constants_vectorProgram hc <;> cases h
    · cases hf
    · obtain rfl := List.mem_singleton.mp hf
      decide
  constants c hc := by
    obtain ⟨-, rfl | rfl⟩ := constants_vectorProgram hc <;> decide
  params f hf params ret hkind q hq := by
    obtain rfl | rfl := functions_vectorProgram hf <;> cases hkind
    · obtain rfl := List.mem_singleton.mp hq
      decide
    · cases hq
  locals f hf d hd := by
    obtain rfl | rfl := functions_vectorProgram hf
    · cases hd
    · obtain rfl := List.mem_singleton.mp hd
      decide
  strings hc hstring := by
    obtain ⟨-, h | h⟩ := constants_vectorProgram hc <;> cases h <;> cases hstring
  declared hc := by
    obtain ⟨-, h | h⟩ := constants_vectorProgram hc <;> cases h
    rfl
  initializers hc := by
    obtain ⟨-, h | h⟩ := constants_vectorProgram hc <;> cases h <;> intro ty hty <;> cases hty
  placeholders hc hplaceholder := by
    obtain ⟨-, h | h⟩ := constants_vectorProgram hc <;> cases h <;> cases hplaceholder
  localInitializers f hf d hd init hinit ty hty := by
    obtain rfl | rfl := functions_vectorProgram hf
    · cases hd
    · obtain rfl := List.mem_singleton.mp hd
      cases hinit
      cases hty
  values f hf e he ty hty := by
    obtain rfl | rfl := functions_vectorProgram hf
    · obtain rfl := List.mem_singleton.mp he
      cases hty
    · cases he

theorem vectors_lowered_alike : ∃ code, lower vectorProgram .standard = .ok code ∧
    lower vectorProgram ⟨.legacy, .single, "Imath"⟩ = .ok code := by
  have same : lower vectorProgram .standard = lower vectorProgram ⟨.legacy, .single, "Imath"⟩ :=
    dialects_agree vectorProgram .single "Imath" ignoresDialect_vectorProgram
  have succeeds : (lower vectorProgram .standard).toBool = true := by decide +kernel
  rw [← same]
  cases hlower : lower vectorProgram .standard with
  | ok code => exact ⟨code, rfl, rfl⟩
  | error e =>
      rw [hlower] at succeeds
      cases succeeds

end Session
end ColorLowering
