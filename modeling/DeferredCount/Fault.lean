import DeferredCount.Address
import DeferredCount.Phase
import DeferredCount.Semantics

/-!
# Faults

A fault ends the operation that meets it. It names its cause, and `Fault.kind` and
`Fault.message` say how it is reported: a check without a text of its own, a number that leaves
its range, or a failure that explains itself.
-/

namespace DeferredCount

/-- The checks that fail without a text of their own. -/
inductive Check
  /-- A count that is written into a header fits its bits. -/
  | countFits
  /-- A thread that stops logging holds the logging lock. -/
  | lockHeld
  /-- A field index is below the number of slots. -/
  | fieldInRange
  /-- The bounds of a page range are page aligned. -/
  | rangeAligned
  /-- A page request asks for at least one page. -/
  | somePages
  /-- A released run starts inside the page range. -/
  | runInRange
  /-- No more pages are released than are reserved. -/
  | reservedCovers
  /-- A size class exists. -/
  | classExists
  /-- The freed object is the one its cell holds. -/
  | cellHoldsObject
  /-- An object that is freed lies in a counted space. -/
  | freedIsCounted
  /-- An alignment lies between the least and the greatest one. -/
  | alignmentSupported
  /-- An alignment is a power of two. -/
  | alignmentPowerOfTwo
  /-- A region starts at a multiple of the least alignment. -/
  | regionAligned
  /-- A buffer holds at least one entry. -/
  | someCapacity
  /-- At least one consumer drains a pool. -/
  | someConsumers
  /-- At least one collector runs an increment. -/
  | someCollectors
  /-- A collector starts an increment with empty buffers. -/
  | collectorFlushed
  /-- A scratch object fits the scratch memory. -/
  | scratchFits
  deriving DecidableEq, Repr

/-- Why an operation ends early. -/
inductive Fault
  /-- A check without a text of its own failed. -/
  | check (c : Check)
  /-- The result of an operation on words is out of range. -/
  | overflow
  /-- The difference of two addresses is negative. -/
  | addressOrder (a b : Address)
  /-- An object was named by the zero address. -/
  | zeroReference
  /-- An access leaves the managed memory. -/
  | outsideHeap (a : Address)
  /-- A decrement met a count of zero. -/
  | zeroCount (o : Ref)
  /-- An object was marked logged by a thread without the logging lock. -/
  | lockNotHeld (o : Ref)
  /-- A cell was put on the list twice. -/
  | cellListed (cell : Address)
  /-- An object was registered twice. -/
  | alreadyLive (o : Ref)
  /-- A small object was freed that is not live. -/
  | notLive (o : Ref)
  /-- A small object was freed outside every page cut into cells. -/
  | notInCell (o : Ref)
  /-- A large object was registered that no request paid for. -/
  | noPendingCell (o : Ref)
  /-- A large object was freed that is not on the list. -/
  | notListed (o : Ref)
  /-- A list was indexed beyond its end. -/
  | indexOutOfBounds (length index : Nat)
  /-- A request is too large for a cell. -/
  | tooLarge (size : Nat)
  /-- A request was sent to no allocator. -/
  | noAllocator
  /-- No allocator serves the semantics. -/
  | unsupported (s : Semantics)
  /-- An object to register lies in no space. -/
  | noSpace (o : Ref) (s : Semantics)
  /-- An allocation failed and the client does not handle that. -/
  | outOfMemory
  /-- An allocation that had to succeed failed. -/
  | allocationFailed
  /-- The client offers no answer to a call. -/
  | notImplemented
  /-- An increment was begun during another one. -/
  | incrementInProgress
  /-- Entries are left in the pools at the end of an increment. -/
  | poolsNotEmpty
  /-- Entries are left in the buffers of a mutator at the end of an increment. -/
  | mutatorNotFlushed
  /-- Entries are left in the buffers of a collector at the end of an increment. -/
  | collectorNotFlushed (ordinal : Nat)
  /-- A mutator was expected to have empty buffers. -/
  | buffersNotFlushed
  /-- A party was asked to run a phase it has no part in. -/
  | unknownPhase (party : Party) (phase : Phase)
  /-- The caller would wait for a thread that does not exist. -/
  | waitsForever
  /-- A loop went on beyond the number of steps it can take. -/
  | stepsExhausted
  deriving DecidableEq, Repr

/-- How a fault is reported. -/
inductive FaultKind
  /-- A check that has no text. -/
  | assertion
  /-- A number out of range. -/
  | arithmetic
  /-- A failure that explains itself. -/
  | panic
  deriving DecidableEq, Repr

namespace Fault

/-- How a fault is reported. -/
def kind : Fault → FaultKind
  | .check _ => .assertion
  | .overflow => .arithmetic
  | _ => .panic

/-- How the parties are called in the text of an unknown phase. -/
def partyText : Party → String
  | .plan => "Global"
  | .mutators => "Per-mutator"
  | .collectors => "Per-collector"

/-- The text of a fault. A check and an overflow have none. -/
def message : Fault → String
  | .check _ => ""
  | .overflow => ""
  | .addressOrder a b =>
    s!"for (addr_a - addr_b), a({hexText a}) needs to be larger than b({hexText b})"
  | .zeroReference => "An object reference cannot be created from the zero address"
  | .outsideHeap a => s!"{hexText a} is outside the mock heap"
  | .zeroCount o => s!"decrement of {o} with a zero count"
  | .lockNotHeld o => s!"{o} logged without holding the lock"
  | .cellListed cell => s!"{hexText cell} is already in the list"
  | .alreadyLive o => s!"{o} is already live"
  | .notLive o => s!"rc: free of {o} which is not live"
  | .notInCell o => s!"rc: {o} is not in a carved page"
  | .noPendingCell o => s!"los: {o} was not allocated in this space"
  | .notListed o => s!"los: free of {o} which is not on the cell list"
  | .indexOutOfBounds length index =>
    s!"index out of bounds: the len is {length} but the index is {index}"
  | .tooLarge size => s!"{size} bytes is too large for the free list allocator"
  | .noAllocator => "Allocator mapping is not initialized"
  | .unsupported s => "Allocator not understood by RC: " ++ s.name
  | .noSpace o s => s!"{o} (" ++ s.name ++ ") is not in any space"
  | .outOfMemory => "Out of memory with HeapOutOfMemory!"
  | .allocationFailed => "allocation failed"
  | .notImplemented => "not implemented"
  | .incrementInProgress => "An increment is already in progress"
  | .poolsNotEmpty => "Buffers are not empty at the end of the increment"
  | .mutatorNotFlushed => "Mutator buffers are not flushed at Release"
  | .collectorNotFlushed ordinal => s!"Collector {ordinal} buffers are not empty at Release"
  | .buffersNotFlushed => "Mutator remembered sets are not flushed"
  | .unknownPhase party phase => partyText party ++ " phase not handled: " ++ phase.name
  | .waitsForever => "The thread would wait forever"
  | .stepsExhausted => "The loop does not end"

end Fault

/-- Fails with a check's fault unless its condition holds. -/
def require (c : Check) (p : Bool) : Except Fault Unit :=
  if p then .ok () else .error (.check c)

end DeferredCount
