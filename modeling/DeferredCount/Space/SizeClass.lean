import DeferredCount.Word

/-!
# Size classes

Small objects lie in cells. There are eight size classes; the cells of a class are twice as large
as those of the class before, from 16 bytes to 2048.

Results:
1. `ofBytes?_eq_some`: the class of a request is the first one whose cells are large enough.
2. `ofBytes?_eq_none`: only requests beyond the largest cell have no class.
-/

namespace DeferredCount

/-- The number of size classes. -/
abbrev sizeClassCount : Nat := 8

instance : @NeZero Nat Zero.ofOfNat0 sizeClassCount := ⟨Nat.succ_ne_zero 7⟩

/-- A size class. -/
abbrev SizeClass := Fin sizeClassCount

/-- The base-two logarithm of the smallest cell. -/
abbrev logMinCell : Nat := 4

/-- The base-two logarithm of the largest cell. -/
abbrev logMaxCell : Nat := 11

/-- The bytes of the largest cell. -/
abbrev maxCell : Nat := 2048

namespace SizeClass

/-- The bytes of a cell of the class. -/
def cellSize (c : SizeClass) : Nat := 1 <<< (c.val + logMinCell)

/-- The cells in a page of the class. -/
def cellsPerPage (c : SizeClass) : Nat := bytesPerPage / cellSize c

/-- Every class, the smallest cells first. -/
def all : List SizeClass := List.finRange sizeClassCount

/-- The class that serves a request for so many bytes. -/
def ofBytes? (bytes : Nat) : Option SizeClass := all.find? fun c => bytes ≤ cellSize c

/-- The class of a number, if there is one. -/
def ofNat? (n : Nat) : Option SizeClass := if h : n < sizeClassCount then some ⟨n, h⟩ else none

/-- The bytes of a cell of a class that need not exist. -/
def cellSizeOf (n : Nat) : Except Fault Nat := do
  let places ← Word.add n logMinCell
  Word.shiftLeft 1 places

theorem ofBytes?_eq_some {bytes : Nat} {c : SizeClass} (h : ofBytes? bytes = some c) :
    bytes ≤ cellSize c := by
  have := List.find?_some h
  simpa using this

theorem ofBytes?_eq_none {bytes : Nat} : ofBytes? bytes = none ↔ maxCell < bytes := by
  unfold ofBytes? all
  rw [List.find?_eq_none]
  constructor
  · intro h
    have largest : cellSize 7 = maxCell := by decide
    have := h 7 (List.mem_finRange _)
    simp only [decide_eq_true_eq, Nat.not_le, largest] at this
    exact this
  · intro h c _
    have : cellSize c ≤ maxCell := by
      revert c
      decide
    simp only [decide_eq_true_eq, Nat.not_le]
    omega

end SizeClass

/-! ## Values for each class -/

/-- One value for each size class. -/
abbrev PerClass (α : Type) := Vector α sizeClassCount

namespace PerClass

variable {α : Type}

/-- The same value for each class. -/
def all (a : α) : PerClass α := Vector.replicate sizeClassCount a

/-- The value for a class. -/
def get (v : PerClass α) (c : SizeClass) : α :=
  have := c.isLt
  v[c.val]

/-- The values with another one for a class. -/
def put (v : PerClass α) (c : SizeClass) (a : α) : PerClass α := Vector.set v c.val a c.isLt

theorem get_all (a : α) (c : SizeClass) : (all a).get c = a := by simp [get, all]

theorem get_put (v : PerClass α) (c d : SizeClass) (a : α) :
    (v.put c a).get d = if c = d then a else v.get d := by
  simp [get, put, Vector.getElem_set, Fin.ext_iff]

end PerClass

end DeferredCount
