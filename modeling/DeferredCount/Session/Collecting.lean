import DeferredCount.Session.Report

/-!
# Increments in a session

A step can run a whole increment, a single phase of one, or one of the parts that phases are made
of. After a sweep the free cells are sorted, so the order in which objects were freed does not
show in later addresses.

A phase in which collectors drain pools ends when all of them wait. A session runs collectors one
by one, so it runs such a phase only if there is a single collector and the phase was not run since
the pools were made ready.
-/

namespace DeferredCount

namespace SessionM

/-- Sets the roots that the client reports. Returns how many there are. -/
def setRoots (roots : List Ref) : SessionM Nat := do
  modify fun s => { s with
    heap := { s.heap with
      client := { s.heap.client with
        scanRoots := { s.heap.client.scanRoots with state := roots } } } }
  return roots.length

/-- The numbers of the bound mutators, in order. -/
def boundMutators : SessionM (List Nat) := do
  let mutators := (← get).mutators
  return (List.range mutators.size).filter fun i => (mutators[i]?.getD none).isSome

/-- The numbers of the bound mutators, or of those among them that are listed, in order. -/
def stoppedMutators (which : Option (List Nat)) : SessionM (List Nat) := do
  let bound ← boundMutators
  match which with
  | none => return bound
  | some listed => return bound.filter listed.contains

/-- Do the free cells depend on the order of a sweep after an increment, when so many cycle
collections were complete before? -/
def sweptSince (cycleCollections : Nat) : SessionM Bool := do
  let h := (← get).heap
  return 1 < h.settings.collectors || cycleCollections < h.progress.cycleCollections

/-- Runs one increment over the given mutators, or over all of them. -/
def collect (kind : CollectionKind) (which : Option (List Nat)) (brief : Bool) :
    SessionM Dump := do
  let ids ← stoppedMutators which
  let stopped ← ids.mapM mutator
  let before := (← get).heap.progress.cycleCollections
  let stopped ← onHeap (HeapM.collect kind stopped)
  for (i, m) in ids.zip stopped do putMutator i (some m)
  modify fun s => { s with modifiedDone := true, decrementsDone := true }
  if ← sweptSince before then onHeap HeapM.sortFreeCells
  dump brief

/-- Asks for an increment. -/
def request (kind : CollectionKind) (collectors : Nat) : SessionM Progress := do
  onHeap (HeapM.request kind collectors)
  return (← get).heap.progress

/-- A new collector. -/
def bindCollector (ordinal : Nat) : SessionM Collector := do
  let c ← onHeap (Collector.bind ordinal)
  modify fun s => { s with collectors := s.collectors.push c }
  return c

/-! ## Single phases -/

/-- Runs the part of the plan in a phase. -/
def planPhase (p : Phase) : SessionM Unit := do
  onHeap (HeapM.planPhase p)
  match p with
  | .prepare =>
    modify fun s => { s with
      modifiedDone := false
      decrementsDone := false
      preparedFor := s.heap.progress.collectors }
  | .backupTrace => onHeap HeapM.sortFreeCells
  | _ => return ()

/-- Stops unless a single collector can run the phase to its end. In a cycle collection the
decrements are only dropped, which can be done again. -/
def requireDrainable (p : Phase) : SessionM Unit := do
  let s ← get
  let alone := s.preparedFor == 1
  match p with
  | .processModBuffer => if s.modifiedDone || !alone then throw (.skipped .wouldBlock)
  | .processDecBuffer =>
    if (s.decrementsDone && !s.heap.progress.cycle) || !alone then throw (.skipped .wouldBlock)
  | _ => return ()

/-- Remembers that a collector drained the pools of a phase. In a cycle collection the decrements
are dropped and not drained. -/
def noteDrained (p : Phase) : SessionM Unit :=
  match p with
  | .processModBuffer => modify fun s => { s with modifiedDone := true }
  | .processDecBuffer =>
    modify fun s => { s with decrementsDone := s.decrementsDone || !s.heap.progress.cycle }
  | _ => return ()

/-- Runs the part of one collector in a phase. -/
def collectorPhase (p : Phase) (i : Nat) : SessionM Unit := do
  let c ← collector i
  requireDrainable p
  let crew ← onHeap (Collector.phase [c] p)
  for c in crew do modify fun s => { s with collectors := s.collectors.set! i c }
  noteDrained p

/-! ## Mutators -/

/-- A new mutator. Returns its number. -/
def bind : SessionM Nat := do
  let m ← onHeap Mutator.bind
  let i := (← get).mutators.size
  modify fun s => { s with mutators := s.mutators.push (some m) }
  return i

/-- Ends a mutator. The first one stays. -/
def destroy (i : Nat) : SessionM PoolSizes := do
  if i = 0 then throw (.refused .noSuchMutator)
  let m ← mutator i
  onHeap m.destroy
  putMutator i none
  poolSizes

/-- Hands buffers of a mutator to their pools. -/
def flush (i : Nat) (f : Mutator → HeapM Mutator) : SessionM PoolSizes := do
  act_ i f
  poolSizes

/-- Are the buffers of a mutator empty, and are they and their pools? -/
def bufferState (i : Nat) : SessionM (Bool × Bool) := do
  let m ← mutator i
  return (m.buffers.isFlushed, m.buffers.isEmpty (← get).heap.pools)

/-! ## Parts of phases -/

/-- The capacity of a buffer that a step makes for its own use. -/
def ownCapacity : Nat := 4

/-- Frees a counted object. Returns the numbers of the objects that died. -/
def free (o : Ref) : SessionM (List Nat) := do
  onHeap (HeapM.free o)
  settle

/-- Selects the listed objects. -/
def selectListed (listed : List Ref) (_ : Unit) (o : Ref) : HeapM (Bool × Unit) :=
  return (listed.contains o, ())

/-- Frees the listed small objects. Returns how many there are, and the numbers of the objects
that died. -/
def sweepSmall (listed : List Ref) : SessionM (Nat × List Nat) := do
  let (freed, _) ← onHeap (HeapM.sweepSmall (selectListed listed) ())
  onHeap HeapM.sortFreeCells
  return (freed, ← settle)

/-- Frees the listed large objects. Returns how many there are, and the numbers of the objects
that died. -/
def sweepLarge (listed : List Ref) : SessionM (Nat × List Nat) := do
  let (freed, _) ← onHeap (HeapM.sweepLarge (selectListed listed) ())
  return (freed, ← settle)

/-- Runs a backup trace from the given roots. -/
def trace (roots : List Ref) : SessionM (TraceStats × Dump) := do
  let stats ← onHeap (Trace.run roots)
  onHeap HeapM.sortFreeCells
  return (stats, ← dump false)

/-- Works off decrements of the given objects, and all that follow from them. The pool of
decrements is drained then, as in a phase. Returns how many objects that freed. -/
def processDecrements (os : List Ref) : SessionM (Nat × Dump) := do
  let freed ← onHeap do
    let pool ← (← get).pools.decrements.prepare 1
    modify fun h => { h with pools := { h.pools with decrements := pool } }
    let buffer ← Buffer.ofCapacity ownCapacity
    let buffer ← HeapM.pushAll .decrements buffer os
    let (freed, _) ← HeapM.drainDecrements buffer
    return freed
  modify fun s => { s with decrementsDone := true }
  return (freed, ← dump false)

/-- Works off the given objects and roots, and hands over what that brings. -/
def processModified (cycle : Bool) (objects roots : List Ref) : SessionM Dump := do
  onHeap do
    let b ← CountingBuffers.ofCapacity ownCapacity
    let b ← objects.foldlM (CountingBuffers.processObject cycle) b
    let b ← roots.foldlM (CountingBuffers.processRoot cycle) b
    let _ ← HeapM.flush .objects b.objects
    let _ ← HeapM.flush .traceRoots b.traceRoots
  dump false

end SessionM

end DeferredCount
