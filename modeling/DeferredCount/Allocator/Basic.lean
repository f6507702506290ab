import DeferredCount.Allocator.Align
import DeferredCount.Heap.Spaces

/-!
# Allocators of one thread

Every mutator owns three allocators. The bump allocator cuts permanent objects off a block, the
cell allocator keeps a stack of free cells of each class, and the page allocator asks for pages
for every object. All of them return address zero when their space is exhausted.
-/

namespace DeferredCount

/-- The bytes of a block of the bump allocator. -/
abbrev blockSize : Nat := 8 * bytesPerPage

/-- The most cells taken at once. -/
abbrev cellsPerRefill : Nat := 32

/-- A bump allocator: the next free byte of its block and the end of the block. Both are zero
before there is a block. -/
structure BumpAllocator where
  cursor : Address := 0
  limit : Address := 0
  deriving DecidableEq, Inhabited, Repr

/-- A cell allocator: its free cells of each class, the next to hand out first. -/
structure CellAllocator where
  cells : PerClass (List Address) := .all []
  deriving DecidableEq, Inhabited, Repr

/-- The allocators of a thread. Allocating pages needs no state. -/
structure Allocators where
  bump : BumpAllocator := {}
  cells : CellAllocator := {}
  deriving DecidableEq, Inhabited, Repr

namespace BumpAllocator

/-- Cuts an object off the block. `none` if the block is too small. -/
def place? (b : BumpAllocator) (size align offset : Nat) :
    Except Fault (Option (Address × BumpAllocator)) := do
  let result ← alignPlace b.cursor align offset
  let cursor ← Word.add result size
  if b.limit < cursor then return none
  return some (result, { b with cursor })

/-- The bytes of a block that an object fits whatever its alignment. -/
def blockFor (size align : Nat) : Except Fault Nat := do
  let sum ← Word.add size align
  let sum ← Word.add sum (blockSize - 1)
  return sum - sum % blockSize

/-- Cuts an object off the block, if there is one that is large enough. -/
def cut? (b : BumpAllocator) (size align offset : Nat) :
    HeapM (Option (Address × BumpAllocator)) := do
  if b.cursor = 0 then return none
  match ← b.place? size align offset with
  | some (result, b') =>
    HeapM.emit (.bumped size result b'.cursor b'.limit)
    return some (result, b')
  | none =>
    HeapM.emit .bumpUsedUp
    return none

/-- A new block for an object. `none` if the space has too few pages. -/
def refill (size align : Nat) : HeapM (Option BumpAllocator) := do
  HeapM.emit .bumpSlow
  let bytes ← blockFor size align
  let pages ← bytesToPages bytes
  match ← HeapM.acquirePages .permanent pages with
  | none =>
    HeapM.emit .bumpRefused
    return none
  | some start =>
    HeapM.emit (.bumpRefilled bytes start)
    let limit ← Word.add start bytes
    return some { cursor := start, limit }

/-- Allocates an object, with at most so many new blocks on the way. A new block is taken when
there is none yet or the object does not fit. -/
def allocate (refills : Nat) (b : BumpAllocator) (size align offset : Nat) :
    HeapM (Address × BumpAllocator) := do
  match ← b.cut? size align offset with
  | some r => return r
  | none =>
    match ← refill size align with
    | none => return (0, b)
    | some b' =>
      match refills with
      | 0 => throw .stepsExhausted
      | k + 1 => allocate k b' size align offset

end BumpAllocator

namespace CellAllocator

/-- Takes new cells of a class from the space. There may be none. -/
def refill (a : CellAllocator) (c : SizeClass) : HeapM CellAllocator := do
  let cells ← HeapM.acquireCells c cellsPerRefill
  return { a with cells := a.cells.put c cells }

/-- Takes a cell of a class, after a refill if there is none. -/
def take (a : CellAllocator) (c : SizeClass) : HeapM (Option Address × CellAllocator) := do
  match a.cells.get c with
  | cell :: rest => return (some cell, { a with cells := a.cells.put c rest })
  | [] =>
    let a' ← a.refill c
    match a'.cells.get c with
    | cell :: rest => return (some cell, { a' with cells := a'.cells.put c rest })
    | [] => return (none, a)

/-- Allocates an object in a cell. -/
def allocate (a : CellAllocator) (size align offset : Nat) : HeapM (Address × CellAllocator) := do
  let bytes ← reserveSize size align
  match SizeClass.ofBytes? bytes with
  | none => throw (.tooLarge size)
  | some c =>
    match ← a.take c with
    | (none, a') => return (0, a')
    | (some cell, a') => return (← alignPlace cell align offset, a')

/-- Gives the cells of a class back to the space. -/
def releaseClass (a : CellAllocator) (c : SizeClass) : HeapM CellAllocator := do
  HeapM.returnCells c (a.cells.get c)
  return { a with cells := a.cells.put c [] }

/-- Gives all cells back to the space. -/
def release (a : CellAllocator) : HeapM CellAllocator :=
  SizeClass.all.foldlM releaseClass a

end CellAllocator

/-- Allocates pages for one object. -/
def allocatePages (size align offset : Nat) : HeapM Address := do
  let bytes ← reserveSize size align
  let pages ← bytesToPages bytes
  match ← HeapM.allocateLarge pages with
  | none => return 0
  | some cell => alignPlace cell align offset

namespace Allocators

/-- Allocates with the allocator of a kind. -/
def allocate (a : Allocators) (k : AllocatorKind) (size align offset : Nat) :
    HeapM (Address × Allocators) := do
  match k with
  | .bumpPointer =>
    let pool := (← get).permanent.pages
    let refills := (pool.limit - pool.start) / bytesPerPage + 1
    let (r, bump) ← BumpAllocator.allocate refills a.bump size align offset
    return (r, { a with bump })
  | .largeObject => return (← allocatePages size align offset, a)
  | .freeList =>
    let (r, cells) ← a.cells.allocate size align offset
    return (r, { a with cells })
  | .none => throw .noAllocator

/-- Allocates equal objects until that fails, at most `n` more. Returns how many there are and where
the last one lies. -/
def allocateMany (k : AllocatorKind) (size align offset : Nat) : (n : Nat) → (done : Nat) →
    (last : Address) → Allocators → HeapM ((Nat × Address) × Allocators)
  | 0, done, last, a => return ((done, last), a)
  | n + 1, done, last, a => do
    let (r, a) ← a.allocate k size align offset
    if r = 0 then return ((done, last), a)
    allocateMany k size align offset n (done + 1) r a

/-- What the allocators do when an increment ends: free cells go back to the space, so that no
thread keeps them that has stopped allocating. -/
def release (a : Allocators) : HeapM Allocators := do
  let cells ← a.cells.release
  return { a with cells }

end Allocators

end DeferredCount
