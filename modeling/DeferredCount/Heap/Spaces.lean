import DeferredCount.Heap.Basic

/-!
# Handing out and reclaiming memory

The operations of the three spaces on the heap. They add to the spaces what concerns several of
them, and record what they do. A sweep of a space visits every object that is live when it starts
exactly once: small objects by ascending address, large ones from the newest to the oldest.
-/

namespace DeferredCount

namespace HeapM

/-- Takes pages for an allocator. `none` if the space has too few. -/
def acquirePages (space : SpaceId) (pages : Nat) : HeapM (Option Address) := do
  let (start, pool) ← ((← get).pagePool space).acquire pages
  modify fun h => h.setPagePool pool space
  match start with
  | some a => emit (.pagesAcquired space pages a)
  | none => emit (.pagesRefused space pages)
  return start

/-! ## Small objects -/

/-- Takes up to `max` cells of a class, the next to hand out first. An empty stack makes the space
cut a fresh page. No cells if that fails. -/
def acquireCells (c : SizeClass) (max : Nat) : HeapM (List Address) := do
  match (← get).small.takeCells c max with
  | some (cells, small) =>
    modify fun h => { h with small }
    return cells
  | none =>
    match ← acquirePages .small 1 with
    | none => return []
    | some page =>
      let cells ← modifyGet fun h =>
        let (cells, small) := h.small.carve page c max
        (cells, { h with small })
      emit (.pageCarved page (SizeClass.cellsPerPage c) (SizeClass.cellSize c))
      return cells

/-- Puts unused cells back. -/
def returnCells (c : SizeClass) (cells : List Address) : HeapM Unit :=
  modify fun h => { h with small := h.small.returnCells c cells }

/-- Registers a new small object. -/
def setLive (o : Ref) : HeapM Unit := do
  let small ← (← get).small.setLive o
  modify fun h => { h with small }

/-- Frees a small object. -/
def freeSmall (o : Ref) : HeapM Unit := do
  let (cell, small) ← (← get).small.reclaim o
  emit (.smallFreed o cell)
  modify fun h => { h with small }

/-- Visits objects in turn and frees those that the visitor selects. Counts the freed ones. -/
def sweepSmallFrom {σ : Type} (visit : σ → Ref → HeapM (Bool × σ)) :
    List Ref → (freed : Nat) → σ → HeapM (Nat × σ)
  | [], freed, s => return (freed, s)
  | o :: rest, freed, s => do
    let (selected, s') ← visit s o
    if selected then
      freeSmall o
      sweepSmallFrom visit rest (freed + 1) s'
    else sweepSmallFrom visit rest freed s'

/-- Frees the live small objects that a visitor selects. Counts the freed ones. -/
def sweepSmall {σ : Type} (visit : σ → Ref → HeapM (Bool × σ)) (s : σ) : HeapM (Nat × σ) := do
  let (freed, s') ← sweepSmallFrom visit (← get).small.liveObjects 0 s
  emit (.smallSwept freed)
  return (freed, s')

/-! ## Large objects -/

/-- Takes a cell of so many pages for a large object. `none` if there are too few. -/
def allocateLarge (pages : Nat) : HeapM (Option Address) := do
  let cell ← acquirePages .large pages
  if let some a := cell then
    modify fun h => { h with large := h.large.addPending a pages }
  return cell

/-- Registers a new large object. -/
def registerLarge (o : Ref) : HeapM Unit := do
  let (pages, claimed) ← (← get).large.claim o
  emit (.largeAdded o (cellOf o) pages)
  let large ← claimed.link o pages
  modify fun h => { h with large }

/-- Frees a large object. -/
def freeLarge (o : Ref) : HeapM Unit := do
  let h ← get
  let (pages, large) ← h.large.unlink o
  emit (.largeFreed h.settings.verbose o (cellOf o) pages)
  let large' ← large.releaseCell (cellOf o) pages
  modify fun h => { h with large := large' }

/-- Visits at most `k` cells on the way from a cell to the tail of the list, and frees the objects
that the visitor selects. The successor of a cell is read before the cell can be taken out. -/
def sweepLargeFrom {σ : Type} (visit : σ → Ref → HeapM (Bool × σ)) :
    (k : Nat) → Option Address → (freed : Nat) → σ → HeapM (Nat × σ)
  | 0, _, freed, s => return (freed, s)
  | _ + 1, none, freed, s => return (freed, s)
  | k + 1, some cell, freed, s => do
    let cells := (← get).large.cells
    let next := cells.next? cell
    match cells.get? cell with
    | none => sweepLargeFrom visit k next freed s
    | some c =>
      let (selected, s') ← visit s c.object
      if selected then
        freeLarge c.object
        sweepLargeFrom visit k next (freed + 1) s'
      else
        emit (.largeRetained c.object)
        sweepLargeFrom visit k next freed s'

/-- Frees the listed large objects that a visitor selects. Counts the freed ones. -/
def sweepLarge {σ : Type} (visit : σ → Ref → HeapM (Bool × σ)) (s : σ) : HeapM (Nat × σ) := do
  let cells := (← get).large.cells
  let (freed, s') ← sweepLargeFrom visit cells.size cells.head 0 s
  emit (.largeSwept freed)
  return (freed, s')

/-! ## Counted and permanent objects -/

/-- Frees a counted object. -/
def free (o : Ref) : HeapM Unit := do
  let h ← get
  if h.small.holds o then freeSmall o
  else
    HeapM.lift (require .freedIsCounted (h.large.holds o))
    freeLarge o

/-- Registers a permanent object. -/
def registerPermanent (o : Ref) : HeapM Unit :=
  modify fun h => { h with permanent := h.permanent.register o }

/-- Sorts the free cells of every class, the lowest to be handed out first. -/
def sortFreeCells : HeapM Unit := modify fun h => { h with small := h.small.sortFree }

end HeapM

end DeferredCount
