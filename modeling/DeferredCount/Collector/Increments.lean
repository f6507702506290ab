import DeferredCount.Collector.Basic
import DeferredCount.Mutator.Barrier

/-!
# Counting the references that were stored

Every slot that a logged object or field covers holds a reference now that was not counted before.
Working off an entry counts it, and makes the object or field loggable again. The first reference
to a fresh object brings the object's own referents in, so the object becomes an entry itself.

In a cycle collection no count is touched: the references become roots of the backup trace, which
counts everything anew.

Each pool is drained until it is empty. Working off a field adds no field. Working off an object
adds an object for every header that stops being fresh, and no header becomes fresh, so there are
at most as many new entries as words of memory.
-/

namespace DeferredCount

namespace CountingBuffers

/-- Counts one reference. -/
def count (cycle : Bool) (b : CountingBuffers) (o : Ref) : HeapM CountingBuffers := do
  unless (← get).isCounted o do return b
  if cycle then
    let traceRoots ← HeapM.push .traceRoots b.traceRoots o
    return { b with traceRoots }
  let (old, _) ← HeapM.updateHeader o Header.increment
  match old.gained with
  | .counted => return b
  | .first =>
    let objects ← HeapM.push .objects b.objects o
    return { b with objects }

/-- Counts the reference in a slot, if there is one. -/
def countSlot (cycle : Bool) (b : CountingBuffers) (slot : Address) : HeapM CountingBuffers := do
  match ← HeapM.inspect (·.loadRef slot) with
  | none => return b
  | some o => b.count cycle o

/-- Works off a logged field or quantum. -/
def processField (cycle : Bool) (b : CountingBuffers) (e : FieldEntry) :
    HeapM CountingBuffers := do
  HeapM.change (·.store e.mark 0)
  let slots ← e.covered.slots
  slots.foldlM (countSlot cycle) b

/-- Works off a logged or new object. -/
def processObject (cycle : Bool) (b : CountingBuffers) (o : Ref) : HeapM CountingBuffers := do
  let _ ← HeapM.updateHeader o Header.makeUnlogged
  if (← get).settings.fieldBarrier then HeapM.change (·.clearMarks o)
  let referents ← HeapM.inspect (·.referents o)
  referents.foldlM (count cycle) b

/-- Counts a root, which counts like any other reference. -/
def processRoot (cycle : Bool) (b : CountingBuffers) (o : Ref) : HeapM CountingBuffers :=
  b.count cycle o

end CountingBuffers

namespace Collector

/-- Works off fields until none is left, in at most so many steps. Counts them. -/
def drainFieldsIn (cycle : Bool) : (steps : Nat) → (done : Nat) → Collector →
    HeapM (Nat × Collector)
  | 0, _, _ => throw .stepsExhausted
  | k + 1, done, c => do
    match ← HeapM.take? .fields c.fields with
    | none =>
      HeapM.join .fields
      return (done, c)
    | some (e, fields) =>
      let counting ← c.counting.processField cycle e
      drainFieldsIn cycle k (done + 1) { c with fields, counting }

/-- Works off fields until none is left. Counts them. -/
def drainFields (cycle : Bool) (c : Collector) : HeapM (Nat × Collector) := do
  let pending := c.fields.pending (← get).pools.fields
  drainFieldsIn cycle (pending + 1) 0 c

/-- Works off objects until none is left, in at most so many steps. Counts them. -/
def drainObjectsIn (cycle : Bool) : (steps : Nat) → (done : Nat) → Collector →
    HeapM (Nat × Collector)
  | 0, _, _ => throw .stepsExhausted
  | k + 1, done, c => do
    match ← HeapM.take? .objects c.counting.objects with
    | none =>
      HeapM.join .objects
      return (done, c)
    | some (o, objects) =>
      let counting ← { c.counting with objects }.processObject cycle o
      drainObjectsIn cycle k (done + 1) { c with counting }

/-- Works off objects until none is left. Counts them. -/
def drainObjects (cycle : Bool) (c : Collector) : HeapM (Nat × Collector) := do
  let pending := c.counting.objects.pending (← get).pools.objects
  drainObjectsIn cycle (pending + Memory.wordCount + 1) 0 c

end Collector

end DeferredCount
