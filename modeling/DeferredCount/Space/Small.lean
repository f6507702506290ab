import DeferredCount.Pages.Pool
import DeferredCount.Space.SizeClass
import Std.Data.ExtTreeMap
import Std.Data.ExtTreeSet

/-!
# The space of small objects

A page of this space is cut into cells of one size class, once and for all. The free cells of a
class form a stack: the cell on top is handed out first, and a cell that comes back goes on top.
A fresh page hands out its highest cells and leaves the lower ones on the stack, the lowest on
top. The space also knows which objects are live.
-/

namespace DeferredCount

/-- The space of small objects. -/
structure SmallSpace where
  pages : PagePool
  /-- The free cells of each class, the next to hand out first. -/
  free : PerClass (List Address) := .all []
  /-- The class of every page that was cut into cells, by the start of the page. -/
  classes : Std.ExtTreeMap Address SizeClass compare := ∅
  /-- The live objects. -/
  live : Std.ExtTreeSet Address compare := ∅

namespace SmallSpace

instance : Inhabited SmallSpace := ⟨{ pages := default }⟩

/-- Does the object lie in the space? -/
def holds (s : SmallSpace) (o : Ref) : Bool := s.pages.contains o.addr

/-- Is the object live? -/
def isLive (s : SmallSpace) (o : Ref) : Bool := s.live.contains o.addr

/-- The number of live objects. -/
def liveCount (s : SmallSpace) : Nat := s.live.size

/-- The live objects by ascending address. -/
def liveObjects (s : SmallSpace) : List Ref := s.live.toList.map Ref.mk

/-- The number of free cells of a class. -/
def freeCount (s : SmallSpace) (c : SizeClass) : Nat := (s.free.get c).length

/-- The class of the page of an address. -/
def classOf? (s : SmallSpace) (a : Address) : Option SizeClass := s.classes.get? (pageStart a)

/-- Takes up to `max` cells of a class off its stack. `none` if the stack is empty. -/
def takeCells (s : SmallSpace) (c : SizeClass) (max : Nat) : Option (List Address × SmallSpace) :=
  match s.free.get c with
  | [] => none
  | cells => some (cells.take max, { s with free := s.free.put c (cells.drop max) })

/-- The cells of a page by ascending address. -/
def pageCells (page : Address) (c : SizeClass) : List Address :=
  (List.range (SizeClass.cellsPerPage c)).map fun i => page + i * SizeClass.cellSize c

/-- Cuts a fresh page into cells of a class. The `max` highest of them are handed out, the lower
ones go on the stack. -/
def carve (s : SmallSpace) (page : Address) (c : SizeClass) (max : Nat) :
    List Address × SmallSpace :=
  let cells := pageCells page c
  let kept := cells.length - max
  (cells.drop kept,
    { s with
      classes := s.classes.insert page c
      free := s.free.put c (cells.take kept ++ s.free.get c) })

/-- Puts unused cells back on the stack of their class, the first of them on top. -/
def returnCells (s : SmallSpace) (c : SizeClass) (cells : List Address) : SmallSpace :=
  { s with free := s.free.put c (cells ++ s.free.get c) }

/-- Registers a new object. -/
def setLive (s : SmallSpace) (o : Ref) : Except Fault SmallSpace :=
  if s.isLive o then .error (.alreadyLive o) else .ok { s with live := s.live.insert o.addr }

/-- Puts the cell of a live object back on its stack. Returns the cell. -/
def reclaim (s : SmallSpace) (o : Ref) : Except Fault (Address × SmallSpace) := do
  unless s.isLive o do throw (.notLive o)
  match s.classOf? o.addr with
  | none => throw (.notInCell o)
  | some c =>
    let cell := o.addr - o.addr % SizeClass.cellSize c
    return (cell,
      { s with live := s.live.erase o.addr, free := s.free.put c (cell :: s.free.get c) })

/-- Sorts every stack of free cells, the lowest cell on top. -/
def sortFree (s : SmallSpace) : SmallSpace :=
  { s with free := s.free.map fun cells => cells.mergeSort (· ≤ ·) }

end SmallSpace

end DeferredCount
