import ColorLowering.Store.Interned

/-!
# Interned names

Each distinct text gets one identity, counted in the order of first occurrence; the empty text is
entered from the start. An identity that was never given out reads as the empty text.
-/
namespace ColorLowering

structure NameId where
  index : Nat
  deriving DecidableEq

/-- A store of 32-bit identities is full. -/
inductive CapacityError where
  | names (count : Nat)
  | symbols (count : Nat)
  deriving DecidableEq

def CapacityError.message : CapacityError → String
  | names count => s!"interner exceeded capacity: {count} strings"
  | symbols count => s!"symbol table exceeded capacity: {count} symbols"

def idCapacity : Nat := 0x100000000

instance : ToString NameId := ⟨fun n => s!"Name({n.index})"⟩

structure NameStore where
  texts : Interned String

namespace NameStore

def empty : NameStore := ⟨.ofList [""]⟩

def size (t : NameStore) : Nat := t.texts.items.size

def intern (t : NameStore) (s : String) : NameId × NameStore :=
  let (i, texts) := t.texts.intern s
  (⟨i⟩, ⟨texts⟩)

/-- Refuses a new text once every identity is taken. -/
def tryIntern (t : NameStore) (s : String) : Except CapacityError (NameId × NameStore) :=
  if t.texts.positions.get? s = none ∧ idCapacity ≤ t.size then .error (.names t.size)
  else .ok (t.intern s)

def lookup (t : NameStore) (id : NameId) : String := t.texts.items.getD id.index ""

/-- Never true: the empty text is always there. -/
def isEmpty (t : NameStore) : Bool := t.texts.items.isEmpty

end NameStore
end ColorLowering
