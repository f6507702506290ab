import DeferredCount.Heap.Spaces

/-!
# Collectors

A collector is a thread of an increment. It has a buffer at each of the four pools. The collector
of ordinal zero is the primary one, which also deals with the roots.
-/

namespace DeferredCount

/-- The buffers that increments feed: objects whose referents are to be counted, and roots of the
next backup trace. -/
structure CountingBuffers where
  objects : Buffer Ref
  traceRoots : Buffer Ref

/-- A collector and its buffers. -/
structure Collector where
  ordinal : Nat
  counting : CountingBuffers
  fields : Buffer FieldEntry
  decrements : Buffer Ref

/-- Counting buffers without entries. -/
def CountingBuffers.ofCapacity (capacity : Nat) : Except Fault CountingBuffers := do
  let objects ← Buffer.ofCapacity capacity
  let traceRoots ← Buffer.ofCapacity capacity
  return { objects, traceRoots }

namespace Collector

/-- A new collector. -/
def bind (ordinal : Nat) : HeapM Collector := do
  let capacity := (← get).settings.bufferCapacity
  let counting ← CountingBuffers.ofCapacity capacity
  let fields ← Buffer.ofCapacity capacity
  let decrements ← Buffer.ofCapacity capacity
  return { ordinal, counting, fields, decrements }

/-- Does the collector deal with the roots? -/
def isPrimary (c : Collector) : Bool := c.ordinal == 0

/-- Are all its buffers empty? -/
def isFlushed (c : Collector) : Bool :=
  c.counting.objects.isFlushed && c.fields.isFlushed && c.decrements.isFlushed &&
    c.counting.traceRoots.isFlushed

end Collector

end DeferredCount
