import DeferredCount.Hook
import DeferredCount.Log
import DeferredCount.Memory
import DeferredCount.Progress
import DeferredCount.Settings.Basic
import DeferredCount.Space.Large
import DeferredCount.Space.Permanent
import DeferredCount.Space.Small
import DeferredCount.Stats
import DeferredCount.Work.Buffer

/-!
# The heap of an instance

`Heap` is all that the mutators and collectors of an instance share: the memory, the three spaces,
the four pools, the roots, the progress of increments and the log. `HeapM` is the monad of
operations on it. A fault keeps the heap as it was when the fault was met, so that the log says
what happened before it.
-/

namespace DeferredCount

/-- The pools that the buffers of all threads are handed to. -/
structure Pools where
  /-- Objects that were logged as a whole, or are new. -/
  objects : Pool Ref := {}
  /-- Logged fields and quanta. -/
  fields : Pool FieldEntry := {}
  /-- References that are gone. -/
  decrements : Pool Ref := {}
  /-- Roots of the next backup trace. -/
  traceRoots : Pool Ref := {}
  deriving Inhabited

/-- The name of a pool, by the type of its entries. -/
inductive PoolId : Type → Type
  | objects : PoolId Ref
  | fields : PoolId FieldEntry
  | decrements : PoolId Ref
  | traceRoots : PoolId Ref

namespace Pools

/-- The pool of a name. -/
def get {α : Type} (p : Pools) : PoolId α → Pool α
  | .objects => p.objects
  | .fields => p.fields
  | .decrements => p.decrements
  | .traceRoots => p.traceRoots

/-- The pools with another one under a name. -/
def set {α : Type} (p : Pools) (k : PoolId α) (q : Pool α) : Pools :=
  match k with
  | .objects => { p with objects := q }
  | .fields => { p with fields := q }
  | .decrements => { p with decrements := q }
  | .traceRoots => { p with traceRoots := q }

/-- Are all four pools empty? -/
def isEmpty (p : Pools) : Bool :=
  p.objects.isEmpty && p.fields.isEmpty && p.decrements.isEmpty && p.traceRoots.isEmpty

/-- Makes every pool ready for so many consumers. -/
def prepare (p : Pools) (consumers : Nat) : Except Fault Pools := do
  let objects ← p.objects.prepare consumers
  let fields ← p.fields.prepare consumers
  let decrements ← p.decrements.prepare consumers
  let traceRoots ← p.traceRoots.prepare consumers
  return { objects, fields, decrements, traceRoots }

end Pools

/-- What the client of an instance answers. -/
structure Client where
  /-- The roots it reports. -/
  scanRoots : Hook (List Ref) := { state := [] }
  /-- Whether a call about exhausted memory returns. -/
  outOfMemory : Hook Bool := { state := false }
  deriving Inhabited

/-- All that the threads of an instance share. -/
structure Heap where
  settings : Settings := {}
  memory : Memory := {}
  small : SmallSpace
  large : LargeSpace
  permanent : PermanentSpace
  pools : Pools := {}
  /-- The roots counted by the last increment, whose counts are taken back by the next one. -/
  oldRoots : List Ref := []
  /-- The roots counted by the running increment. -/
  newRoots : List Ref := []
  progress : Progress := {}
  stats : BarrierStats := { enabled := settings.barrierStats }
  client : Client := {}
  /-- What happened, the latest first. -/
  log : List Event := []
  deriving Inhabited

namespace Heap

/-! ## Where the spaces lie -/

/-- The range of small objects. -/
abbrev smallStart : Address := 0x10000000

/-- The range of large objects, which is the end of the range of small ones. -/
abbrev largeStart : Address := 0x10300000

/-- The range of permanent objects, which is the end of the range of large ones. -/
abbrev permanentStart : Address := 0x10600000

/-- The memory that belongs to no space, which is the end of the range of permanent objects. -/
abbrev scratchStart : Address := 0x10700000

/-- The end of the memory. -/
abbrev memoryEnd : Address := 0x10800000

/-- A heap whose spaces cover the whole memory. -/
def ofSettings (settings : Settings) : Heap where
  settings
  small := { pages := { start := smallStart, limit := largeStart, cursor := smallStart } }
  large := { pages := { start := largeStart, limit := permanentStart, cursor := largeStart } }
  permanent :=
    { pages := { start := permanentStart, limit := scratchStart, cursor := permanentStart } }

/-! ## Objects and spaces -/

/-- The page pool of a space. -/
def pagePool (h : Heap) : SpaceId → PagePool
  | .small => h.small.pages
  | .large => h.large.pages
  | .permanent => h.permanent.pages

/-- The heap with another page pool for a space. -/
def setPagePool (h : Heap) (p : PagePool) : SpaceId → Heap
  | .small => { h with small := { h.small with pages := p } }
  | .large => { h with large := { h.large with pages := p } }
  | .permanent => { h with permanent := { h.permanent with pages := p } }

/-- Is the object counted, which means that it is small or large? -/
def isCounted (h : Heap) (o : Ref) : Bool := h.small.holds o || h.large.holds o

/-- Is the object permanent? -/
def isPermanent (h : Heap) (o : Ref) : Bool := h.permanent.holds o

/-- Was the object allocated and not freed yet? -/
def isLive (h : Heap) (o : Ref) : Bool :=
  if h.small.holds o then h.small.isLive o
  else if h.large.holds o then h.large.contains o
  else h.isPermanent o

/-- The pages that all spaces have in use. -/
def reservedPages (h : Heap) : Nat :=
  h.small.pages.usage.reserved + h.large.pages.usage.reserved + h.permanent.pages.usage.reserved

end Heap

/-- Operations on a heap. -/
abbrev HeapM := EStateM Fault Heap

namespace HeapM

/-- A computation without effects is an operation that leaves the heap as it is. -/
def lift {α : Type} : Except Fault α → HeapM α
  | .ok a => pure a
  | .error f => throw f

instance : MonadLift (Except Fault) HeapM := ⟨HeapM.lift⟩

/-- Records an event. -/
def emit (e : Event) : HeapM Unit := modify fun h => { h with log := e :: h.log }

/-- Takes what was recorded since the last time at a level that shows, in order. -/
def takeRecords (asked : Level) : HeapM (List Event) :=
  modifyGet fun h =>
    ((h.log.filter fun e => e.level.isShown asked).reverse, { h with log := [] })

/-- Runs an operation and forgets what it records. -/
def unrecorded {α : Type} (x : HeapM α) : HeapM α := fun h =>
  match x h with
  | .ok a h' => .ok a { h' with log := h.log }
  | .error f h' => .error f { h' with log := h.log }

/-! ## Memory -/

/-- Computes something from the memory. -/
def inspect {α : Type} (f : Memory → Except Fault α) : HeapM α := do
  HeapM.lift (f (← get).memory)

/-- Changes the memory. -/
def change (f : Memory → Except Fault Memory) : HeapM Unit := do
  let memory ← HeapM.lift (f (← get).memory)
  modify fun h => { h with memory }

/-- Updates the header of an object, as one atomic exchange. Returns the header before, and
whether it was updated. -/
def updateHeader (o : Ref) (f : Header → Option Header) : HeapM (Header × Bool) := do
  let old ← inspect (·.header o)
  match f old with
  | none => return (old, false)
  | some new =>
    change (·.store o.addr new.toWord)
    return (old, true)

/-- Exchanges the header of an object, if it is still the one that was seen. -/
def exchangeHeader (o : Ref) (seen new : Header) : HeapM Bool := do
  let present ← inspect (·.header o)
  unless present = seen do return false
  change (·.store o.addr new.toWord)
  return true

/-! ## Pools -/

/-- Hands a buffer to its pool. -/
def flush {α : Type} (k : PoolId α) (b : Buffer α) : HeapM (Buffer α) :=
  modifyGet fun h =>
    let (b', q) := b.flush (h.pools.get k)
    (b', { h with pools := h.pools.set k q })

/-- Pushes an entry to a buffer of a pool. -/
def push {α : Type} (k : PoolId α) (b : Buffer α) (v : α) : HeapM (Buffer α) :=
  modifyGet fun h =>
    let (b', q) := b.push (h.pools.get k) v
    (b', { h with pools := h.pools.set k q })

/-- Pushes entries to a buffer of a pool, in order. -/
def pushAll {α : Type} (k : PoolId α) (b : Buffer α) (vs : List α) : HeapM (Buffer α) :=
  vs.foldlM (push k) b

/-- Takes an entry from a buffer or its pool. -/
def take? {α : Type} (k : PoolId α) (b : Buffer α) : HeapM (Option (α × Buffer α)) :=
  modifyGet fun h =>
    match b.take? (h.pools.get k) with
    | none => (none, h)
    | some (v, b', q) => (some (v, b'), { h with pools := h.pools.set k q })

/-- A consumer of a pool found it empty, and waits. -/
def join {α : Type} (k : PoolId α) : HeapM Unit :=
  modify fun h => { h with pools := h.pools.set k (h.pools.get k).join }

/-! ## Barrier statistics -/

/-- Counts events of a barrier, if the instance counts them. -/
def count (c : BarrierStats.Counter) (n : Nat) : HeapM Unit :=
  modify fun h => { h with stats := h.stats.count c n }

end HeapM

end DeferredCount
