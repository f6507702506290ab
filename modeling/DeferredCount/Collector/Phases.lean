import DeferredCount.Collector.Decrements
import DeferredCount.Collector.Increments

/-!
# The phases of the collectors

The collectors of an increment run their phases as one crew. In the two phases that drain pools,
each collector works until its buffer and the pool are empty, and waits; once the last of them
waits there is no work left. Which of them works off an entry changes neither a count nor what is
freed, so they take their turns one after the other.
-/

namespace DeferredCount

namespace Collector

/-- The roots that the client reports. -/
def scanRoots : HeapM (List Ref) := do
  let (reply, hook) := (← get).client.scanRoots.call fun roots => .ok (roots, roots)
  modify fun h => { h with client := { h.client with scanRoots := hook } }
  HeapM.lift reply

/-- The primary collector asks for the roots, and counts them unless cycles are collected. Returns
how many there are. -/
def countRoots (cycle : Bool) (c : Collector) : HeapM (Nat × Collector) := do
  unless c.isPrimary do return (0, c)
  let roots ← scanRoots
  modify fun h => { h with newRoots := h.newRoots ++ roots }
  if cycle then return (roots.length, c)
  let counting ← roots.foldlM (CountingBuffers.processRoot cycle) c.counting
  return (roots.length, { c with counting })

/-- Takes the roots that the last increment counted. -/
def takeOldRoots : HeapM (List Ref) :=
  modifyGet fun h => (h.oldRoots, { h with oldRoots := [] })

/-- The primary collector takes back the roots of the last increment. -/
def dropOldRoots (c : Collector) : HeapM Collector := do
  unless c.isPrimary do return c
  let roots ← takeOldRoots
  let decrements ← HeapM.pushAll .decrements c.decrements roots
  return { c with decrements }

/-- Forgets all decrements, which the backup trace makes void. -/
def dropDecrements (c : Collector) : HeapM Collector := do
  if c.isPrimary then
    let _ ← takeOldRoots
    modify fun h => { h with pools := { h.pools with decrements := h.pools.decrements.clear } }
  return { c with decrements := c.decrements.reset }

/-- Works off decrements. Returns how many objects that freed. -/
def drainDecrements (c : Collector) : HeapM (Nat × Collector) := do
  let (freed, decrements) ← HeapM.drainDecrements c.decrements
  return (freed, { c with decrements })

/-- Hands over the trace roots and reports what the collector counted. -/
def endIncrements (c : Collector) (roots fields objects : Nat) : HeapM Collector := do
  let traceRoots ← HeapM.flush .traceRoots c.counting.traceRoots
  HeapM.emit (.modifiedProcessed c.ordinal roots fields objects)
  return { c with counting := { c.counting with traceRoots } }

/-- Every collector takes its turn, and a number comes back from each. -/
def turns {α : Type} (f : Collector → HeapM (α × Collector)) (crew : List Collector) :
    HeapM (List α × List Collector) := do
  let results ← crew.mapM f
  return (results.map (·.1), results.map (·.2))

/-- The crew works off the logged objects and fields. -/
def processModified (crew : List Collector) : HeapM (List Collector) := do
  let cycle := (← get).progress.cycle
  let (roots, crew) ← turns (countRoots cycle) crew
  let (fields, crew) ← turns (drainFields cycle) crew
  let (objects, crew) ← turns (drainObjects cycle) crew
  (crew.zip (roots.zip (fields.zip objects))).mapM fun (c, r, f, o) => c.endIncrements r f o

/-- The crew works off the decrements, or forgets them if cycles are collected. -/
def processDecrements (crew : List Collector) : HeapM (List Collector) := do
  if (← get).progress.cycle then return ← crew.mapM dropDecrements
  let crew ← crew.mapM dropOldRoots
  let (freed, crew) ← turns drainDecrements crew
  for (c, n) in crew.zip freed do HeapM.emit (.decrementsProcessed c.ordinal n)
  return crew

/-- The part of the collectors in a phase. -/
def phase (crew : List Collector) : Phase → HeapM (List Collector)
  | .prepare => do
    for c in crew do HeapM.lift (require .collectorFlushed c.isFlushed)
    return crew
  | .processModBuffer => processModified crew
  | .processDecBuffer => processDecrements crew
  | .release => do
    for c in crew do
      unless c.isFlushed do throw (.collectorNotFlushed c.ordinal)
    return crew
  | p => throw (.unknownPhase .collectors p)

end Collector

end DeferredCount
