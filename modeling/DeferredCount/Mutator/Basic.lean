import DeferredCount.Allocator.Basic

/-!
# Mutators

A mutator is what one thread of the client needs to work on the heap: its allocators, the settings
of its write barrier, and three buffers. The buffers take the objects it logged, the fields it
logged, and the references it overwrote.
-/

namespace DeferredCount

/-- The settings of a write barrier, as they were when its mutator was bound. -/
structure BarrierSettings where
  scalarFields : Bool
  arrayFields : Bool
  arrayThreshold : Nat
  logQuantum : Nat
  scalarOutOfLine : Bool
  arrayOutOfLine : Bool
  verbose : Bool
  deriving DecidableEq, Inhabited, Repr

namespace BarrierSettings

/-- The barrier settings of an instance. -/
def ofSettings (s : Settings) : BarrierSettings where
  scalarFields := s.scalarFields
  arrayFields := s.arrayFields
  arrayThreshold := s.arrayThreshold
  logQuantum := s.logArrayQuantum
  scalarOutOfLine := s.scalarOutOfLine
  arrayOutOfLine := s.arrayOutOfLine
  verbose := s.verbose

/-- The number of array elements that share a mark. -/
def arrayQuantum (s : BarrierSettings) : Nat := 1 <<< s.logQuantum

/-- Barrier settings as messages show them. -/
def text (s : BarrierSettings) : String :=
  "BarrierConfig \x7b field_barrier_for_putfield: " ++ Event.flagText s.scalarFields ++
    ", field_barrier_for_aastore: " ++ Event.flagText s.arrayFields ++
    s!", aastore_threshold: {s.arrayThreshold}, log_array_quantum: {s.logQuantum}" ++
    ", putfield_out_of_line: " ++ Event.flagText s.scalarOutOfLine ++
    ", aastore_out_of_line: " ++ Event.flagText s.arrayOutOfLine ++
    ", verbose: " ++ Event.flagText s.verbose ++ " \x7d"

end BarrierSettings

/-- The buffers of a mutator. -/
structure LogBuffers where
  /-- Objects that were logged as a whole, or are new. -/
  objects : Buffer Ref
  /-- Logged fields and quanta. -/
  fields : Buffer FieldEntry
  /-- References that are gone. -/
  decrements : Buffer Ref

namespace LogBuffers

/-- Buffers without entries. -/
def ofCapacity (capacity : Nat) : Except Fault LogBuffers := do
  let objects ← Buffer.ofCapacity capacity
  let fields ← Buffer.ofCapacity capacity
  let decrements ← Buffer.ofCapacity capacity
  return { objects, fields, decrements }

/-- Are the three buffers empty? -/
def isFlushed (b : LogBuffers) : Bool :=
  b.objects.isFlushed && b.fields.isFlushed && b.decrements.isFlushed

/-- Are the three buffers and their pools empty? -/
def isEmpty (b : LogBuffers) (p : Pools) : Bool :=
  b.objects.isEmpty p.objects && b.fields.isEmpty p.fields &&
    b.decrements.isEmpty p.decrements

end LogBuffers

/-- A thread of the client. -/
structure Mutator where
  flavor : Flavor
  barrier : BarrierSettings
  allocators : Allocators := {}
  buffers : LogBuffers

namespace Mutator

/-- A new mutator. -/
def bind : HeapM Mutator := do
  let s := (← get).settings
  let buffers ← LogBuffers.ofCapacity s.bufferCapacity
  HeapM.emit (.mutatorBound s.flavor)
  return { flavor := s.flavor, barrier := .ofSettings s, buffers }

/-- Pushes a logged or new object. -/
def pushObject (m : Mutator) (o : Ref) : HeapM Mutator := do
  let objects ← HeapM.push .objects m.buffers.objects o
  return { m with buffers := { m.buffers with objects } }

/-- Pushes a logged field or quantum. -/
def pushField (m : Mutator) (e : FieldEntry) : HeapM Mutator := do
  let fields ← HeapM.push .fields m.buffers.fields e
  return { m with buffers := { m.buffers with fields } }

/-- Pushes references that are gone, in order. -/
def pushDecrements (m : Mutator) (os : List Ref) : HeapM Mutator := do
  let decrements ← HeapM.pushAll .decrements m.buffers.decrements os
  return { m with buffers := { m.buffers with decrements } }

/-- Hands the buffers of logged objects and fields to their pools. -/
def flushModified (m : Mutator) : HeapM Mutator := do
  let objects ← HeapM.flush .objects m.buffers.objects
  let fields ← HeapM.flush .fields m.buffers.fields
  return { m with buffers := { m.buffers with objects, fields } }

/-- Hands the buffer of decrements to its pool. -/
def flushDecrements (m : Mutator) : HeapM Mutator := do
  let decrements ← HeapM.flush .decrements m.buffers.decrements
  return { m with buffers := { m.buffers with decrements } }

/-- Hands all buffers to their pools. -/
def flush (m : Mutator) : HeapM Mutator := do
  let m ← m.flushModified
  m.flushDecrements

/-- The end of a mutator: what it buffered is left to the next increment. -/
def destroy (m : Mutator) : HeapM Unit := do
  let _ ← m.flush

/-- Fails unless the buffers are empty. -/
def assertFlushed (m : Mutator) : Except Fault Unit :=
  if m.buffers.isFlushed then .ok () else .error .buffersNotFlushed

/-- The part of a mutator in a phase. -/
def phase (m : Mutator) : Phase → HeapM Mutator
  | .prepare => return m
  | .processModBuffer => m.flushModified
  | .processDecBuffer => m.flushDecrements
  | .release => do
    let allocators ← m.allocators.release
    unless m.buffers.isFlushed do throw .mutatorNotFlushed
    return { m with allocators }
  | p => throw (.unknownPhase .mutators p)

end Mutator

end DeferredCount
