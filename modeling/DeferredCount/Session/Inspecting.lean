import DeferredCount.Session.Report

/-!
# Inspecting an instance in a session

Steps that show a part of the instance. Only draining a pool and resetting the statistics change
it.
-/

namespace DeferredCount

/-- Which space an object lies in, and what the spaces know about it. -/
structure Residence where
  inSmall : Bool
  inLarge : Bool
  inPermanent : Bool
  counted : Bool
  permanent : Bool
  listed : Bool
  live : Bool
  deriving DecidableEq, Repr

/-- The layout of an object. -/
structure Layout where
  array : Bool
  slots : Nat
  size : Nat
  start : Address
  deriving DecidableEq, Repr

/-- Covered slots as a session shows them. -/
inductive ShownCovered
  | field (slot : Address)
  | quantum (array : Shown) (first length : Nat)
  deriving DecidableEq, Repr

/-- An entry of the modified-field buffer as a session shows it. -/
structure ShownEntry where
  covered : ShownCovered
  /-- The references in the covered slots. -/
  referents : List Shown
  mark : Address
  deriving DecidableEq, Repr

namespace SessionM

/-- Takes every block out of a pool. -/
def drainPool {α : Type} (k : PoolId α) : SessionM (List (List α)) := do
  let pool := (← get).heap.pools.get k
  modify fun s => { s with heap := { s.heap with pools := s.heap.pools.set k pool.clear } }
  return pool.blocks.map Stack.toList

/-- Takes every block out of a pool of references. -/
def drainReferences (k : PoolId Ref) : SessionM (List (List Shown)) := do
  let blocks ← drainPool k
  let n := (← get).numbering
  return blocks.map fun block => block.map fun o => Session.shownBy n (some o)

/-- Shows covered slots. -/
def showCovered (n : Numbering) : Covered → ShownCovered
  | .field slot => .field slot
  | .quantum array first length => .quantum (Session.shownBy n (some array)) first length

/-- Shows an entry of the modified-field buffer. -/
def showEntry (n : Numbering) (e : FieldEntry) : SessionM ShownEntry := do
  let slots ← e.covered.slots
  let referents ← inspect fun memory => slots.mapM memory.loadRef
  return {
    covered := showCovered n e.covered
    referents := referents.map (Session.shownBy n)
    mark := e.mark }

/-- Takes every block out of the pool of fields. -/
def drainFields : SessionM (List (List ShownEntry)) := do
  let blocks ← drainPool .fields
  let n := (← get).numbering
  blocks.mapM fun block => block.mapM (showEntry n)

/-- What the barriers did. -/
def statsText : SessionM String := return (← get).heap.stats.text

/-- Forgets what the barriers did. -/
def resetStats : SessionM String := do
  modify fun s => { s with heap := { s.heap with stats := s.heap.stats.reset } }
  statsText

/-- Is the object of a number not freed yet, as far as its space knows? `none` if no object was
ever allocated under the number. -/
def liveness (id : Nat) : SessionM (Option Bool) := do
  let s ← get
  return (s.objects[id]?.bind (·.object)).map s.heap.isLive

/-- Which space an object lies in. -/
def residence (o : Ref) : SessionM Residence := do
  let h := (← get).heap
  return {
    inSmall := h.small.holds o
    inLarge := h.large.holds o
    inPermanent := h.permanent.holds o
    counted := h.isCounted o
    permanent := h.isPermanent o
    listed := h.large.contains o
    live := h.small.isLive o }

/-- The layout of an object. -/
def layout (o : Ref) : SessionM Layout := do
  return {
    array := ← inspect (·.isArray o)
    slots := ← inspect (·.slotCount o)
    size := ← inspect (·.currentSize o)
    start := o.addr }

/-- The large objects, the newest first. -/
def largeObjects : SessionM (List Shown) := do
  shownAll ((← get).heap.large.objects.map some)

/-- The permanent objects, the oldest first. -/
def permanentObjects : SessionM (List Shown) := do
  shownAll ((← get).heap.permanent.objects.toList.map some)

/-- The number of free cells of every class. -/
def freeCells : SessionM (List Nat) := do
  return SizeClass.all.map (← get).heap.small.freeCount

/-- The settings of an instance. -/
def settings : SessionM Settings := return (← get).heap.settings

end SessionM

end DeferredCount
