import ColorLowering.Expr.Mentions
import ColorLowering.Expr.Value

/-!
# What a rendering looks up

To render an expression is to look up the symbols that it refers to, and the texts of the defaults
that its calls omit, which refer to symbols in turn. A default that is a plain name is looked up as
a placeholder first.
-/
namespace ColorLowering

mutual
/-- The slots that are filled by their defaults when the expression is rendered, those within
defaults included. -/
def Expr.filled : Expr → List Slot
  | .literal .. => []
  | .name .. => []
  | .binary _ _ _ left right => left.filled ++ right.filled
  | .unary _ _ operand => operand.filled
  | .index _ array position => array.filled ++ position.filled
  | .member _ object _ => object.filled
  | .call _ (.function _ slots) args => Expr.filledAll args ++ Expr.filledAfter args.length slots
  | .call _ (.variable _) _ => []
  | .call _ .computed _ => []
  | .aggregate _ leaves => Expr.filledAll leaves
  | .size .. => []
  | .unresolved _ => []

def Expr.filledAll : List Expr → List Slot
  | [] => []
  | e :: es => e.filled ++ Expr.filledAll es

def Expr.filledAfter : (supplied : Nat) → List Slot → List Slot
  | _, [] => []
  | supplied + 1, _ :: rest => Expr.filledAfter supplied rest
  | 0, .required .. :: _ => []
  | 0, .optional param ty id default :: rest =>
    .optional param ty id default :: (default.filled ++ Expr.filledAfter 0 rest)
end

mutual
/-- The symbols that are referred to when the expression is rendered, defaults included. -/
def Expr.referred : Expr → List SymbolId
  | .literal .. => []
  | .name _ symbol => [symbol]
  | .binary _ _ _ left right => left.referred ++ right.referred
  | .unary _ _ operand => operand.referred
  | .index _ array position => array.referred ++ position.referred
  | .member _ object _ => object.referred
  | .call _ (.function symbol slots) args =>
    symbol :: (Expr.referredAll args ++ Expr.referredAfter args.length slots)
  | .call _ (.variable _) _ => []
  | .call _ .computed _ => []
  | .aggregate _ leaves => Expr.referredAll leaves
  | .size .. => []
  | .unresolved _ => []

def Expr.referredAll : List Expr → List SymbolId
  | [] => []
  | e :: es => e.referred ++ Expr.referredAll es

def Expr.referredAfter : (supplied : Nat) → List Slot → List SymbolId
  | _, [] => []
  | supplied + 1, _ :: rest => Expr.referredAfter supplied rest
  | 0, .required .. :: _ => []
  | 0, .optional _ _ _ default :: rest => default.referred ++ Expr.referredAfter 0 rest
end

def Expr.plainName? : Expr → Option SymbolId
  | .name _ symbol => some symbol
  | _ => none

theorem Expr.mem_referred_of_plainName? {e : Expr} {symbol : SymbolId}
    (h : e.plainName? = some symbol) : symbol ∈ e.referred := by
  cases e with
  | name _ other =>
      obtain rfl := Option.some.inj h
      exact List.mem_singleton.mpr rfl
  | _ => cases h

mutual
/-- The symbols that are referred to, apart from omitted arguments whose default is a plain name. -/
def Expr.named : Expr → List SymbolId
  | .literal .. => []
  | .name _ symbol => [symbol]
  | .binary _ _ _ left right => left.named ++ right.named
  | .unary _ _ operand => operand.named
  | .index _ array position => array.named ++ position.named
  | .member _ object _ => object.named
  | .call _ (.function symbol slots) args =>
    symbol :: (Expr.namedAll args ++ Expr.namedAfter args.length slots)
  | .call _ (.variable _) _ => []
  | .call _ .computed _ => []
  | .aggregate _ leaves => Expr.namedAll leaves
  | .size .. => []
  | .unresolved _ => []

def Expr.namedAll : List Expr → List SymbolId
  | [] => []
  | e :: es => e.named ++ Expr.namedAll es

def Expr.namedAfter : (supplied : Nat) → List Slot → List SymbolId
  | _, [] => []
  | supplied + 1, _ :: rest => Expr.namedAfter supplied rest
  | 0, .required .. :: _ => []
  | 0, .optional _ _ _ default :: rest =>
    (if default.plainName?.isSome then [] else default.named) ++ Expr.namedAfter 0 rest
end

theorem append_subset_append {as bs cs ds : List SymbolId} (h : as ⊆ cs) (h' : bs ⊆ ds) :
    as ++ bs ⊆ cs ++ ds :=
  List.append_subset.mpr
    ⟨List.subset_append_of_subset_left ds h, List.subset_append_of_subset_right cs h'⟩

mutual
theorem Expr.named_subset_referred : (e : Expr) → e.named ⊆ e.referred
  | .literal .. => List.Subset.refl _
  | .name .. => List.Subset.refl _
  | .binary _ _ _ left right =>
      append_subset_append left.named_subset_referred right.named_subset_referred
  | .unary _ _ operand => operand.named_subset_referred
  | .index _ array position =>
      append_subset_append array.named_subset_referred position.named_subset_referred
  | .member _ object _ => object.named_subset_referred
  | .call _ (.function symbol slots) args => List.cons_subset_cons symbol
      (append_subset_append (Expr.namedAll_subset_referredAll args)
        (Expr.namedAfter_subset_referredAfter args.length slots))
  | .call _ (.variable _) _ => List.Subset.refl _
  | .call _ .computed _ => List.Subset.refl _
  | .aggregate _ leaves => Expr.namedAll_subset_referredAll leaves
  | .size .. => List.Subset.refl _
  | .unresolved _ => List.Subset.refl _

theorem Expr.namedAll_subset_referredAll : (es : List Expr) →
    Expr.namedAll es ⊆ Expr.referredAll es
  | [] => List.Subset.refl _
  | e :: es => append_subset_append e.named_subset_referred
      (Expr.namedAll_subset_referredAll es)

theorem Expr.namedAfter_subset_referredAfter : (supplied : Nat) → (slots : List Slot) →
    Expr.namedAfter supplied slots ⊆ Expr.referredAfter supplied slots
  | _, [] => by simp [Expr.namedAfter]
  | supplied + 1, _ :: rest => by
      simpa only [Expr.namedAfter, Expr.referredAfter] using
        Expr.namedAfter_subset_referredAfter supplied rest
  | 0, .required .. :: _ => by simp [Expr.namedAfter]
  | 0, .optional _ _ _ default :: rest => by
      rw [Expr.namedAfter, Expr.referredAfter]
      refine append_subset_append ?_ (Expr.namedAfter_subset_referredAfter 0 rest)
      split
      · exact List.nil_subset _
      · exact default.named_subset_referred
end

namespace Expr

variable {param : String} {ty : Ty} {id : ExprId} {default : Expr}

mutual
/-- What a default refers to, the expression that it is filled in for refers to. -/
theorem referred_of_filled : (e : Expr) → .optional param ty id default ∈ e.filled →
    default.referred ⊆ e.referred
  | .literal .., h => by cases h
  | .name .., h => by cases h
  | .binary _ _ _ left right, h => by
      rw [filled, List.mem_append] at h
      rw [referred]
      rcases h with h | h
      · exact List.Subset.trans (referred_of_filled left h) (List.subset_append_left _ _)
      · exact List.Subset.trans (referred_of_filled right h) (List.subset_append_right _ _)
  | .unary _ _ operand, h => referred_of_filled operand h
  | .index _ array position, h => by
      rw [filled, List.mem_append] at h
      rw [referred]
      rcases h with h | h
      · exact List.Subset.trans (referred_of_filled array h) (List.subset_append_left _ _)
      · exact List.Subset.trans (referred_of_filled position h) (List.subset_append_right _ _)
  | .member _ object _, h => referred_of_filled object h
  | .call _ (.function _ slots) args, h => by
      rw [filled, List.mem_append] at h
      rw [referred]
      apply List.Subset.trans _ (List.subset_cons_self _ _)
      rcases h with h | h
      · exact List.Subset.trans (referred_of_filledAll args h) (List.subset_append_left _ _)
      · exact List.Subset.trans (referred_of_filledAfter args.length slots h)
          (List.subset_append_right _ _)
  | .call _ (.variable _) _, h => by cases h
  | .call _ .computed _, h => by cases h
  | .aggregate _ leaves, h => referred_of_filledAll leaves h
  | .size .., h => by cases h
  | .unresolved _, h => by cases h

theorem referred_of_filledAll : (es : List Expr) →
    .optional param ty id default ∈ filledAll es → default.referred ⊆ referredAll es
  | [], h => by cases h
  | e :: es, h => by
      rw [filledAll, List.mem_append] at h
      rw [referredAll]
      rcases h with h | h
      · exact List.Subset.trans (referred_of_filled e h) (List.subset_append_left _ _)
      · exact List.Subset.trans (referred_of_filledAll es h) (List.subset_append_right _ _)

theorem referred_of_filledAfter : (supplied : Nat) → (slots : List Slot) →
    .optional param ty id default ∈ filledAfter supplied slots →
    default.referred ⊆ referredAfter supplied slots
  | _, [], h => by cases h
  | supplied + 1, _ :: rest, h => referred_of_filledAfter supplied rest h
  | 0, .required .. :: _, h => by cases h
  | 0, .optional _ _ _ other :: rest, h => by
      rw [filledAfter, List.mem_cons, List.mem_append] at h
      rw [referredAfter]
      rcases h with heq | hwithin | hrest
      · cases heq
        exact List.subset_append_left _ _
      · exact List.Subset.trans (referred_of_filled other hwithin) (List.subset_append_left _ _)
      · exact List.Subset.trans (referred_of_filledAfter 0 rest hrest)
          (List.subset_append_right _ _)
end

mutual
theorem filled_of_isLiteral {literals : Table SymbolId String} :
    (e : Expr) → e.isLiteral literals → e.filled = []
  | .literal .., _ => rfl
  | .name .., _ => rfl
  | .binary _ _ _ left right, h => by
      rw [isLiteral, Bool.and_eq_true] at h
      rw [filled, filled_of_isLiteral left h.1, filled_of_isLiteral right h.2, List.append_nil]
  | .unary _ _ operand, h => filled_of_isLiteral operand h
  | .aggregate _ leaves, h => filledAll_of_allLiteral leaves h
  | .index .., h => by cases h
  | .member .., h => by cases h
  | .call .., h => by cases h
  | .size .., h => by cases h
  | .unresolved _, h => by cases h

theorem filledAll_of_allLiteral {literals : Table SymbolId String} :
    (es : List Expr) → allLiteral literals es → filledAll es = []
  | [], _ => rfl
  | e :: es, h => by
      rw [allLiteral, Bool.and_eq_true] at h
      rw [filledAll, filled_of_isLiteral e h.1, filledAll_of_allLiteral es h.2, List.append_nil]
end

mutual
theorem isLiteral_mono {literals literals' : Table SymbolId String}
    (hmore : ∀ symbol, literals.contains symbol → literals'.contains symbol) :
    (e : Expr) → e.isLiteral literals → e.isLiteral literals'
  | .literal .., _ => rfl
  | .name _ symbol, h => hmore symbol h
  | .binary _ _ _ left right, h => by
      rw [isLiteral, Bool.and_eq_true] at h ⊢
      exact h.imp (isLiteral_mono hmore left) (isLiteral_mono hmore right)
  | .unary _ _ operand, h => isLiteral_mono hmore operand h
  | .aggregate _ leaves, h => allLiteral_mono hmore leaves h
  | .index .., h => by cases h
  | .member .., h => by cases h
  | .call .., h => by cases h
  | .size .., h => by cases h
  | .unresolved _, h => by cases h

theorem allLiteral_mono {literals literals' : Table SymbolId String}
    (hmore : ∀ symbol, literals.contains symbol → literals'.contains symbol) :
    (es : List Expr) → allLiteral literals es → allLiteral literals' es
  | [], _ => rfl
  | e :: es, h => by
      rw [allLiteral, Bool.and_eq_true] at h ⊢
      exact h.imp (isLiteral_mono hmore e) (allLiteral_mono hmore es)
end

mutual
/-- Whether an expression is built from literals depends on the symbols that it refers to. -/
theorem isLiteral_congr {literals literals' : Table SymbolId String} : (e : Expr) →
    (∀ symbol ∈ e.referred, literals.contains symbol = literals'.contains symbol) →
    e.isLiteral literals = e.isLiteral literals'
  | .literal .., _ => rfl
  | .name _ symbol, h => h symbol (List.mem_singleton.mpr rfl)
  | .binary _ _ _ left right, h => by
      simp only [referred, List.mem_append] at h
      rw [isLiteral, isLiteral, isLiteral_congr left fun x hx => h x (.inl hx),
        isLiteral_congr right fun x hx => h x (.inr hx)]
  | .unary _ _ operand, h => isLiteral_congr operand h
  | .aggregate _ leaves, h => allLiteral_congr leaves h
  | .index .., _ => rfl
  | .member .., _ => rfl
  | .call .., _ => rfl
  | .size .., _ => rfl
  | .unresolved _, _ => rfl

theorem allLiteral_congr {literals literals' : Table SymbolId String} : (es : List Expr) →
    (∀ symbol ∈ referredAll es, literals.contains symbol = literals'.contains symbol) →
    allLiteral literals es = allLiteral literals' es
  | [], _ => rfl
  | e :: es, h => by
      simp only [referredAll, List.mem_append] at h
      rw [allLiteral, allLiteral, isLiteral_congr e fun x hx => h x (.inl hx),
        allLiteral_congr es fun x hx => h x (.inr hx)]
end

theorem value?_congr {precision : Precision} {folded folded' : Table SymbolId Value} :
    (e : Expr) → (∀ symbol ∈ e.referred, folded.get? symbol = folded'.get? symbol) →
    e.value? precision folded = e.value? precision folded'
  | .literal _ (.scalar _), _ => rfl
  | .literal _ (.string _), _ => rfl
  | .name _ symbol, h => h symbol (List.mem_singleton.mpr rfl)
  | .binary _ _ _ left right, h => by
      simp only [referred, List.mem_append] at h
      rw [value?, value?, value?_congr left fun x hx => h x (.inl hx),
        value?_congr right fun x hx => h x (.inr hx)]
  | .unary _ _ operand, h => by
      rw [value?, value?, value?_congr operand h]
  | .index .., _ => rfl
  | .member .., _ => rfl
  | .call .., _ => rfl
  | .aggregate .., _ => rfl
  | .size .., _ => rfl
  | .unresolved _, _ => rfl

mutual
theorem literal_of_isLiteral {literals : Table SymbolId String} : (e : Expr) →
    e.isLiteral literals → ∀ symbol ∈ e.referred, literals.contains symbol
  | .literal .., _ => by simp [referred]
  | .name _ _, h => by
      intro symbol hsymbol
      obtain rfl := List.mem_singleton.mp hsymbol
      exact h
  | .binary _ _ _ left right, h => by
      rw [isLiteral, Bool.and_eq_true] at h
      simp only [referred, List.mem_append]
      rintro symbol (hx | hx)
      · exact literal_of_isLiteral left h.1 symbol hx
      · exact literal_of_isLiteral right h.2 symbol hx
  | .unary _ _ operand, h => literal_of_isLiteral operand h
  | .aggregate _ leaves, h => literal_of_allLiteral leaves h
  | .index .., h => by cases h
  | .member .., h => by cases h
  | .call .., h => by cases h
  | .size .., h => by cases h
  | .unresolved _, h => by cases h

theorem literal_of_allLiteral {literals : Table SymbolId String} : (es : List Expr) →
    allLiteral literals es → ∀ symbol ∈ referredAll es, literals.contains symbol
  | [], _ => by simp [referredAll]
  | e :: es, h => by
      rw [allLiteral, Bool.and_eq_true] at h
      simp only [referredAll, List.mem_append]
      rintro symbol (hx | hx)
      · exact literal_of_isLiteral e h.1 symbol hx
      · exact literal_of_allLiteral es h.2 symbol hx
end

end Expr
end ColorLowering
