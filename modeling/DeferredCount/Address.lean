import DeferredCount.Text.Hex

/-!
# Addresses and object references

An `Address` names a byte of the managed memory. It is a plain number, and the operations of
`DeferredCount.Word` keep it below `2 ^ 64`. A `Ref` names an object by the address of its header
word. No object lies at address zero, so a slot that holds zero holds no reference.
-/

namespace DeferredCount

/-- A byte address. -/
abbrev Address := Nat

/-- The identity of a managed object: the address of its header word. -/
structure Ref where
  addr : Address
  deriving DecidableEq, Inhabited, Repr

/-- An object is written as its address. -/
instance : ToString Ref := ⟨fun o => hexText o.addr⟩

namespace Ref

/-- The object a word refers to. The zero word refers to none. -/
def ofWord? (w : Nat) : Option Ref := if w = 0 then none else some ⟨w⟩

/-- The word that stores a reference. No reference is stored as zero. -/
def toWord : Option Ref → Nat
  | none => 0
  | some o => o.addr

@[simp] theorem ofWord?_zero : ofWord? 0 = none := rfl

theorem ofWord?_addr {o : Ref} (h : o.addr ≠ 0) : ofWord? o.addr = some o := by
  simp [ofWord?, h]

@[simp] theorem toWord_ofWord? (w : Nat) : toWord (ofWord? w) = w := by
  unfold ofWord?
  split <;> simp_all [toWord]

end Ref

end DeferredCount
