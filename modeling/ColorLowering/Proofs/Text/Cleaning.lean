import ColorLowering.Text.Identifier

/-!
# Cleaned and unqualified names

Cleaning makes an identifier of every name but the empty one, and leaves alone what is one already.
A name without its qualifiers is what follows the last two colons in a row, or the whole name if it
has no two colons in a row. Neither changes anything when it is done again.
-/
namespace ColorLowering.Text

variable {c : Char} {cs found : List Char}

/-! ### Identifiers -/

def BeginsIdentifier (c : Char) : Prop := ('A' ≤ c ∧ c ≤ 'Z') ∨ ('a' ≤ c ∧ c ≤ 'z') ∨ c = '_'

def ContinuesIdentifier (c : Char) : Prop := BeginsIdentifier c ∨ ('0' ≤ c ∧ c ≤ '9')

/-- The identifiers of C++ in ASCII, whether reserved or not. -/
def IsIdentifier (cs : List Char) : Prop :=
  ∃ first rest, cs = first :: rest ∧ BeginsIdentifier first ∧ ∀ c ∈ rest, ContinuesIdentifier c

theorem isDigit_iff : c.isDigit ↔ '0' ≤ c ∧ c ≤ '9' := by
  simp [Char.isDigit, Char.le_def]

theorem isUpper_iff : c.isUpper ↔ 'A' ≤ c ∧ c ≤ 'Z' := decide_eq_true_iff

theorem isLower_iff : c.isLower ↔ 'a' ≤ c ∧ c ≤ 'z' :=
  (Bool.and_eq_true _ _).to_iff.trans (and_congr decide_eq_true_iff decide_eq_true_iff)

theorem isAlpha_iff : c.isAlpha ↔ ('A' ≤ c ∧ c ≤ 'Z') ∨ ('a' ≤ c ∧ c ≤ 'z') :=
  (Bool.or_eq_true _ _).to_iff.trans (or_congr isUpper_iff isLower_iff)

theorem isWordChar_iff : isWordChar c ↔ ContinuesIdentifier c := by
  simp only [isWordChar, Char.isAlphanum, Bool.or_eq_true, beq_iff_eq, isAlpha_iff, isDigit_iff,
    ContinuesIdentifier, BeginsIdentifier]
  grind

theorem not_isDigit_of_beginsIdentifier (h : BeginsIdentifier c) : ¬ c.isDigit := by
  intro hdigit
  simp only [isDigit_iff, BeginsIdentifier, Char.le_def, UInt32.le_iff_toNat_le] at h hdigit
  change 48 ≤ c.val.toNat ∧ c.val.toNat ≤ 57 at hdigit
  obtain hupper | hlower | rfl := h
  · have : 65 ≤ c.val.toNat := hupper.1
    omega
  · have : 97 ≤ c.val.toNat := hlower.1
    omega
  · simp at hdigit

theorem beginsIdentifier_iff : BeginsIdentifier c ↔ isWordChar c ∧ ¬ c.isDigit := by
  constructor
  · exact fun h => ⟨isWordChar_iff.mpr (.inl h), not_isDigit_of_beginsIdentifier h⟩
  · rintro ⟨hword, hdigit⟩
    exact (isWordChar_iff.mp hword).resolve_right (mt isDigit_iff.mpr hdigit)

theorem isIdentifier_cons : IsIdentifier (c :: cs) ↔
    ¬ c.isDigit ∧ ∀ d ∈ c :: cs, isWordChar d := by
  constructor
  · rintro ⟨first, rest, hcs, hfirst, hrest⟩
    obtain ⟨rfl, rfl⟩ := List.cons.inj hcs
    obtain ⟨hword, hdigit⟩ := beginsIdentifier_iff.mp hfirst
    exact ⟨hdigit, List.forall_mem_cons.mpr ⟨hword, fun d hd => isWordChar_iff.mpr (hrest d hd)⟩⟩
  · rintro ⟨hdigit, hall⟩
    obtain ⟨hword, hrest⟩ := List.forall_mem_cons.mp hall
    exact ⟨c, cs, rfl, beginsIdentifier_iff.mpr ⟨hword, hdigit⟩,
      fun d hd => isWordChar_iff.mp (hrest d hd)⟩

theorem isWordChar_of_mem_cleanChars (h : c ∈ cleanChars cs) : isWordChar c := by
  have mapped : ∀ d ∈ cs.map (fun c => if isWordChar c then c else '_'), isWordChar d := by
    intro d hd
    obtain ⟨e, -, rfl⟩ := List.mem_map.mp hd
    split
    · assumption
    · rfl
  rw [cleanChars] at h
  split at h
  · obtain rfl | h := List.mem_cons.mp h
    · rfl
    · exact mapped c h
  · exact mapped c h

theorem isIdentifier_cleanChars (h : cs ≠ []) : IsIdentifier (cleanChars cs) := by
  have word : ∀ d ∈ cleanChars cs, isWordChar d := fun d => isWordChar_of_mem_cleanChars
  cases cs with
  | nil => exact absurd rfl h
  | cons c rest =>
      rw [cleanChars, List.head?_cons, Option.any_some, List.map_cons] at word ⊢
      by_cases hdigit : c.isDigit
      · rw [if_pos hdigit] at word ⊢
        exact isIdentifier_cons.mpr ⟨by decide, word⟩
      · rw [if_neg hdigit] at word ⊢
        refine isIdentifier_cons.mpr ⟨?_, word⟩
        split
        · exact hdigit
        · decide

theorem cleanChars_of_isIdentifier (h : IsIdentifier cs) : cleanChars cs = cs := by
  cases cs with
  | nil => rfl
  | cons c rest =>
      obtain ⟨hdigit, hword⟩ := isIdentifier_cons.mp h
      have same : (c :: rest).map (fun c => if isWordChar c then c else '_') = c :: rest := by
        rw [List.map_congr_left fun d hd => if_pos (hword d hd), List.map_id']
      rw [cleanChars, same, List.head?_cons, Option.any_some, if_neg hdigit]

/-- What a name is cleaned to: an identifier, and the same name if it is one. -/
structure CleansTo (name cleaned : String) : Prop where
  identifier : IsIdentifier cleaned.toList ↔ name ≠ ""
  unchanged : cleaned = name ↔ name = "" ∨ IsIdentifier name.toList
  again : clean cleaned = cleaned

theorem not_isIdentifier_nil : ¬ IsIdentifier [] := by
  rintro ⟨first, rest, h, -⟩
  cases h

theorem clean_eq_self_iff (name : String) :
    clean name = name ↔ name = "" ∨ IsIdentifier name.toList := by
  constructor
  · intro h
    by_cases hname : name = ""
    · exact .inl hname
    · have chars : cleanChars name.toList = name.toList := by
        rw [← String.toList_ofList (l := cleanChars name.toList)]
        exact congrArg String.toList h
      rw [← chars]
      exact .inr (isIdentifier_cleanChars (by simpa using hname))
  · rintro (rfl | h)
    · rfl
    · rw [clean, cleanChars_of_isIdentifier h, String.ofList_toList]

theorem isIdentifier_clean_iff (name : String) :
    IsIdentifier (clean name).toList ↔ name ≠ "" := by
  constructor
  · rintro h rfl
    exact not_isIdentifier_nil h
  · intro h
    rw [clean, String.toList_ofList]
    exact isIdentifier_cleanChars (by simpa using h)

theorem cleansTo_clean (name : String) : CleansTo name (clean name) where
  identifier := isIdentifier_clean_iff name
  unchanged := clean_eq_self_iff name
  again := by
    rw [clean_eq_self_iff]
    by_cases hname : name = ""
    · subst hname
      exact .inl rfl
    · exact .inr ((isIdentifier_clean_iff name).mpr hname)

/-! ### Qualifiers -/

def Qualifies (cs : List Char) : Prop := [':', ':'] <:+: cs

theorem qualifies_cons :
    Qualifies (c :: cs) ↔ (c = ':' ∧ cs.head? = some ':') ∨ Qualifies cs := by
  rw [Qualifies, List.infix_cons_iff]
  refine or_congr_left ?_
  cases cs <;> simp [eq_comm]

theorem afterQualifier_of_not_qualifies (h : ¬ Qualifies cs) : afterQualifier found cs = found := by
  induction cs with
  | nil => rfl
  | cons c rest ih =>
      rw [qualifies_cons, not_or] at h
      rw [afterQualifier, if_neg h.1, ih h.2]

/-- The last two colons in a row are those after which no two stand, overlapping ones included. -/
theorem exists_afterQualifier_eq (found : List Char) (h : Qualifies cs) : ∃ before,
    cs = before ++ ':' :: ':' :: afterQualifier found cs ∧
      ¬ Qualifies (':' :: afterQualifier found cs) := by
  induction cs generalizing found with
  | nil => simp [Qualifies] at h
  | cons c rest ih =>
      rw [afterQualifier]
      by_cases hrest : Qualifies rest
      · obtain ⟨before, hcs, hlast⟩ := ih _ hrest
        exact ⟨c :: before, congrArg (c :: ·) hcs, hlast⟩
      · obtain ⟨rfl, hhead⟩ := (qualifies_cons.mp h).resolve_right hrest
        obtain ⟨later, rfl⟩ := List.head?_eq_some_iff.mp hhead
        rw [if_pos ⟨rfl, hhead⟩, afterQualifier_of_not_qualifies hrest]
        exact ⟨[], rfl, hrest⟩

theorem not_qualifies_unqualifiedChars (cs : List Char) : ¬ Qualifies (unqualifiedChars cs) := by
  by_cases h : Qualifies cs
  · obtain ⟨before, -, hlast⟩ := exists_afterQualifier_eq cs h
    exact fun hlater => hlast (qualifies_cons.mpr (.inr hlater))
  · rwa [unqualifiedChars, afterQualifier_of_not_qualifies h]

theorem unqualified_of_not_qualifies {name : String} (h : ¬ Qualifies name.toList) :
    unqualified name = name := by
  rw [unqualified, unqualifiedChars, afterQualifier_of_not_qualifies h, String.ofList_toList]

@[simp] theorem unqualified_unqualified (name : String) :
    unqualified (unqualified name) = unqualified name := by
  refine unqualified_of_not_qualifies ?_
  rw [unqualified, String.toList_ofList]
  exact not_qualifies_unqualifiedChars name.toList

/-- What is left of a name without its qualifiers. -/
structure UnqualifiesTo (name rest : String) : Prop where
  suffix : rest.toList <:+ name.toList
  bare : ¬ Qualifies rest.toList
  whole : ¬ Qualifies name.toList → rest = name
  last : Qualifies name.toList → ∃ before, name = before ++ "::" ++ rest ∧
    ∀ other later, name = other ++ "::" ++ later → other.length ≤ before.length
  again : unqualified rest = rest

theorem length_le_of_last {before other rest later : List Char}
    (h : before ++ ':' :: ':' :: rest = other ++ ':' :: ':' :: later)
    (hlast : ¬ Qualifies (':' :: rest)) : other.length ≤ before.length := by
  refine Nat.le_of_not_lt fun inside => hlast ?_
  have tails := congrArg (List.drop (before.length + 1)) h
  rw [List.drop_append_of_le_length inside, List.drop_append,
    List.drop_eq_nil_of_le (Nat.le_succ _), Nat.add_sub_cancel_left] at tails
  exact ⟨other.drop (before.length + 1), later, by simpa using tails.symm⟩

theorem unqualifiesTo_unqualified (name : String) : UnqualifiesTo name (unqualified name) where
  suffix := by
    rw [unqualified, String.toList_ofList, unqualifiedChars]
    by_cases h : Qualifies name.toList
    · obtain ⟨before, hname, -⟩ := exists_afterQualifier_eq name.toList h
      exact ⟨before ++ [':', ':'], by simpa using hname.symm⟩
    · simp [afterQualifier_of_not_qualifies h]
  bare := by
    rw [unqualified, String.toList_ofList]
    exact not_qualifies_unqualifiedChars name.toList
  whole := unqualified_of_not_qualifies
  last h := by
    obtain ⟨before, hname, hlast⟩ := exists_afterQualifier_eq name.toList h
    refine ⟨String.ofList before, ?_, fun other later hother => ?_⟩
    · apply String.ext
      simpa [unqualified, unqualifiedChars] using hname
    · have chars : name.toList = other.toList ++ ':' :: ':' :: later.toList := by simp [hother]
      rw [← String.length_toList (s := other), String.length_ofList]
      exact length_le_of_last (hname.symm.trans chars) hlast
  again := unqualified_unqualified name

/-- A name that is cleaned is an identifier unless it is empty, and the same as before exactly if it
was one or is empty; an unqualified name is what follows the last two colons in a row, if there are
any, and has none itself; and both are the same when cleaned or unqualified again. -/
theorem names_are_cleaned_and_unqualified (name : String) :
    CleansTo name (clean name) ∧ UnqualifiesTo name (unqualified name) :=
  ⟨cleansTo_clean name, unqualifiesTo_unqualified name⟩

end ColorLowering.Text
