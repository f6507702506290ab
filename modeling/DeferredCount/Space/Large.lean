import DeferredCount.CellList
import DeferredCount.Pages.Pool

/-!
# The space of large objects

A large object has pages of its own, its cell. A cell that was handed out is pending until its
object is registered; from then on it is on the list of cells, the newest first, until the object
is freed.
-/

namespace DeferredCount

/-- The base-two logarithm of the granularity of large cells. -/
abbrev logCellGranularity : Nat := 12

/-- The cell of an object: the start of its page. -/
def cellOf (o : Ref) : Address := pageStart o.addr

/-- A listed cell: its object and its pages. -/
structure LargeCell where
  object : Ref
  pages : Nat
  deriving DecidableEq, Inhabited, Repr

/-- The space of large objects. -/
structure LargeSpace where
  pages : PagePool
  /-- The pages of every cell without a registered object. -/
  pending : Std.ExtTreeMap Address Nat compare := ∅
  cells : CellList LargeCell := {}

namespace LargeSpace

instance : Inhabited LargeSpace := ⟨{ pages := default }⟩

/-- Does the object lie in the space? -/
def holds (s : LargeSpace) (o : Ref) : Bool := s.pages.contains o.addr

/-- Is the object on the list? -/
def contains (s : LargeSpace) (o : Ref) : Bool :=
  (s.cells.get? (cellOf o)).any fun c => c.object == o

/-- The space takes any object for live: an object is only freed when its owner says so. -/
def isLive (_ : LargeSpace) (_ : Ref) : Bool := true

/-- The number of listed objects. -/
def size (s : LargeSpace) : Nat := s.cells.size

/-- The listed objects, the newest first. -/
def objects (s : LargeSpace) : List Ref := s.cells.toList.map fun c => c.2.object

/-- Remembers a cell that was handed out. -/
def addPending (s : LargeSpace) (cell : Address) (pages : Nat) : LargeSpace :=
  { s with pending := s.pending.insert cell pages }

/-- The cell of a new object is pending no longer. Returns its pages. -/
def claim (s : LargeSpace) (o : Ref) : Except Fault (Nat × LargeSpace) :=
  match s.pending.get? (cellOf o) with
  | none => .error (.noPendingCell o)
  | some pages => .ok (pages, { s with pending := s.pending.erase (cellOf o) })

/-- Puts a new object on the list. -/
def link (s : LargeSpace) (o : Ref) (pages : Nat) : Except Fault LargeSpace := do
  let cells ← s.cells.add (cellOf o) ⟨o, pages⟩
  return { s with cells }

/-- Takes an object off the list. Returns the pages of its cell, which are not free yet. -/
def unlink (s : LargeSpace) (o : Ref) : Except Fault (Nat × LargeSpace) := do
  match s.cells.remove (cellOf o) with
  | (none, _) => throw (.notListed o)
  | (some c, cells) =>
    require .cellHoldsObject (c.object == o)
    return (c.pages, { s with cells })

/-- Gives the pages of a cell back. -/
def releaseCell (s : LargeSpace) (cell : Address) (pages : Nat) : Except Fault LargeSpace := do
  let pool ← s.pages.release cell pages
  return { s with pages := pool }

end LargeSpace

end DeferredCount
