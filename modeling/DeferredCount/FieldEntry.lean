import DeferredCount.Address

/-!
# Fields and the entries that log them

A store names the field it changes. A field, or a quantum of adjacent array elements, is logged by
one entry of the modified-field buffer: the slots it covers and the mark that says so.
-/

namespace DeferredCount

/-- How a store names the field it changes. -/
inductive Field
  /-- A field of an object. -/
  | scalar (i : Nat)
  /-- An element of an array. -/
  | element (i : Nat)
  deriving DecidableEq, Inhabited, Repr

namespace Field

/-- The index of a field. -/
def index : Field → Nat
  | .scalar i => i
  | .element i => i

/-- A field as messages show it. -/
def text : Field → String
  | .scalar i => s!"Scalar({i})"
  | .element i => s!"ArrayElement({i})"

end Field

/-- The slots that one entry of the modified-field buffer covers. -/
inductive Covered
  /-- One slot. -/
  | field (slot : Address)
  /-- Adjacent elements of an array, from element `first` on. -/
  | quantum (array : Ref) (first length : Nat)
  deriving DecidableEq, Inhabited, Repr

/-- Covered slots as messages show them. -/
def Covered.text : Covered → String
  | .field slot => s!"Field(MockSlot({hexText slot}))"
  | .quantum array first length =>
    s!"Quantum \x7b array: {array}, first: {first}, len: {length} \x7d"

/-- An entry of the modified-field buffer. -/
structure FieldEntry where
  covered : Covered
  /-- The mark to clear when the entry is worked off. -/
  mark : Address
  deriving DecidableEq, Inhabited, Repr

end DeferredCount
