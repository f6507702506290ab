import DeferredCount.Fault
import Std.Data.ExtTreeMap

/-!
# A linked list of cells

A list of cells that are known by their start address. Every node holds the addresses of its
neighbours, so a cell is linked in at the head, taken out, and asked for its successor without a
walk. A walker that reads the successor of a cell before it takes the cell out visits every cell.
-/

namespace DeferredCount

/-- One linked cell. -/
structure CellNode (α : Type) where
  prev : Option Address
  next : Option Address
  payload : α
  deriving DecidableEq

/-- Linked cells by address, and the first of them. -/
structure CellList (α : Type) where
  nodes : Std.ExtTreeMap Address (CellNode α) compare := ∅
  head : Option Address := none

namespace CellList

variable {α : Type}

/-- The list without cells. -/
def empty : CellList α := {}

instance : Inhabited (CellList α) := ⟨empty⟩

/-- The number of cells. -/
def size (l : CellList α) : Nat := l.nodes.size

/-- Is there no cell? -/
def isEmpty (l : CellList α) : Bool := l.nodes.isEmpty

/-- Is the cell in the list? -/
def contains (l : CellList α) (cell : Address) : Bool := l.nodes.contains cell

/-- The payload of a cell. -/
def get? (l : CellList α) (cell : Address) : Option α := (l.nodes.get? cell).map (·.payload)

/-- The cell that follows a cell. -/
def next? (l : CellList α) (cell : Address) : Option Address :=
  (l.nodes.get? cell).bind (·.next)

/-- Changes the node of a cell that may be missing. -/
def modifyNode (nodes : Std.ExtTreeMap Address (CellNode α) compare) (cell : Option Address)
    (f : CellNode α → CellNode α) : Std.ExtTreeMap Address (CellNode α) compare :=
  match cell with
  | none => nodes
  | some c => nodes.modify c f

/-- Links a cell in at the head. The cell must not be in the list. -/
def add (l : CellList α) (cell : Address) (payload : α) : Except Fault (CellList α) :=
  if l.contains cell then .error (.cellListed cell)
  else
    let nodes := modifyNode l.nodes l.head fun n => { n with prev := some cell }
    .ok { nodes := nodes.insert cell { prev := none, next := l.head, payload }, head := some cell }

/-- Takes a cell out and returns its payload. A cell that is not in the list changes nothing. -/
def remove (l : CellList α) (cell : Address) : Option α × CellList α :=
  match l.nodes.get? cell with
  | none => (none, l)
  | some node =>
    let rest := l.nodes.erase cell
    let joined := modifyNode rest node.prev fun n => { n with next := node.next }
    let nodes := modifyNode joined node.next fun n => { n with prev := node.prev }
    (some node.payload, { nodes, head := if node.prev.isSome then l.head else node.next })

/-- The next `k` cells on the way from a cell to the tail. -/
def walk (l : CellList α) : (k : Nat) → Option Address → List (Address × α)
  | 0, _ => []
  | _ + 1, none => []
  | k + 1, some cell =>
    match l.nodes.get? cell with
    | none => []
    | some node => (cell, node.payload) :: walk l k node.next

/-- The cells and payloads from head to tail. -/
def toList (l : CellList α) : List (Address × α) := l.walk l.size l.head

end CellList

end DeferredCount
