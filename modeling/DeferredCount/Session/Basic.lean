import DeferredCount.Collection

/-!
# Sessions

A session is a client that drives one instance step by step. It owns the mutators and collectors
and gives every object it allocates a number, in the order of allocation. An object that was freed
is dead to the session: a step that names it does nothing.

`SessionM` is the monad of steps. A step stops early for one of three reasons: the instance meets
a fault, the step names something that does not exist, or there is nothing to do for it.
-/

namespace DeferredCount

/-- What a step may name that does not exist, or ask for that a session does not grant. -/
inductive Refusal
  | noSuchObject
  | noSuchMutator
  | noSuchCollector
  | tooLarge
  deriving DecidableEq, Repr

/-- The message of a refusal. -/
def Refusal.message : Refusal → String
  | .noSuchObject => "no such object"
  | .noSuchMutator => "no such mutator"
  | .noSuchCollector => "no such collector"
  | .tooLarge => "threads or buffer_capacity too large for the driver"

/-- Why there is nothing to do for a step. -/
inductive Skip
  /-- It names a dead object. -/
  | dead
  /-- It would wait for a thread that does not exist. -/
  | wouldBlock
  /-- It names a field the object does not have. -/
  | outOfRange
  deriving DecidableEq, Repr

/-- The answer to a step that is not run. -/
def Skip.text : Skip → String
  | .dead => "dead"
  | .wouldBlock => "would_block"
  | .outOfRange => "out_of_range"

/-- Why a step stops early. -/
inductive Stop
  | fault (f : Fault)
  | refused (r : Refusal)
  | skipped (s : Skip)
  deriving DecidableEq, Repr

/-- An object a session knows by its number. -/
structure KnownObject where
  /-- There is none if the allocation failed. -/
  object : Option Ref
  /-- Scratch objects belong to no space and never die. -/
  scratch : Bool := false
  dead : Bool := false
  deriving DecidableEq, Inhabited, Repr

/-- The object, unless it is dead. -/
def KnownObject.live? (k : KnownObject) : Option Ref := if k.dead then none else k.object

/-- A field of an object that has it. -/
structure Place where
  object : Ref
  index : Nat
  deriving DecidableEq, Repr

/-- The slot of a field. -/
def Place.slot (p : Place) : Except Fault Address := Memory.slot p.object p.index

/-- A client that drives an instance. -/
structure Session where
  heap : Heap
  /-- The known objects by number. -/
  objects : Array KnownObject := #[]
  /-- The bound mutators by number. A destroyed one leaves its number unused. -/
  mutators : Array (Option Mutator) := #[]
  /-- The bound collectors by number. -/
  collectors : Array Collector := #[]
  /-- The bytes of scratch memory in use. -/
  scratchUsed : Nat := 0
  /-- Did a collector work off the modified objects since the pools were last made ready? -/
  modifiedDone : Bool := false
  /-- Did a collector work off the decrements since the pools were last made ready? -/
  decrementsDone : Bool := false
  /-- For how many collectors a step of the session last made the pools ready. -/
  preparedFor : Nat := 1

/-- Steps of a session. -/
abbrev SessionM := EStateM Stop Session

namespace SessionM

/-- Runs an operation on the heap. -/
def onHeap {α : Type} (x : HeapM α) : SessionM α := fun s =>
  match x s.heap with
  | .ok a heap => .ok a { s with heap }
  | .error f heap => .error (.fault f) { s with heap }

/-- A computation without effects. -/
def lift {α : Type} : Except Fault α → SessionM α
  | .ok a => pure a
  | .error f => throw (.fault f)

instance : MonadLift (Except Fault) SessionM := ⟨SessionM.lift⟩

instance : MonadLift HeapM SessionM := ⟨SessionM.onHeap⟩

/-- Computes something from the memory. -/
def inspect {α : Type} (f : Memory → Except Fault α) : SessionM α := do
  SessionM.lift (f (← get).heap.memory)

/-! ## Objects -/

/-- The object of a number, unless it is dead. -/
def object (id : Nat) : SessionM Ref := do
  match (← get).objects[id]? with
  | none => throw (.refused .noSuchObject)
  | some k =>
    match k.live? with
    | none => throw (.skipped .dead)
    | some o => return o

/-- Gives a new object the next number. -/
def know (object : Option Ref) (scratch : Bool) : SessionM Nat := do
  let id := (← get).objects.size
  modify fun s => { s with objects := s.objects.push { object, scratch, dead := object.isNone } }
  return id

/-- Is a known object dead by now? -/
def diedIn (h : Heap) (k : KnownObject) : Bool :=
  !k.dead && !k.scratch && !k.object.any h.isLive

/-- Finds the known objects that died, and returns their numbers. -/
def settle : SessionM (List Nat) := do
  let s ← get
  let died := (List.range s.objects.size).filter fun id =>
    (s.objects[id]?).any (diedIn s.heap)
  set { s with
    objects := s.objects.map fun k => if diedIn s.heap k then { k with dead := true } else k }
  return died

/-- The field of an object at an index. Stops unless the object has that many. -/
def place (o : Ref) (i : Nat) : SessionM Place := do
  let n ← inspect (·.slotCount o)
  unless i < n do throw (.skipped .outOfRange)
  return { object := o, index := i }

/-- Stops if logging the object would wait for another thread. -/
def requireFree (o : Ref) : SessionM Unit := do
  let h ← inspect (·.header o)
  if h.isBusy then throw (.skipped .wouldBlock)

/-! ## Mutators and collectors -/

/-- The mutator of a number. -/
def mutator (i : Nat) : SessionM Mutator := do
  match (← get).mutators[i]? with
  | some (some m) => return m
  | _ => throw (.refused .noSuchMutator)

/-- Puts a mutator in its place. -/
def putMutator (i : Nat) (m : Option Mutator) : SessionM Unit :=
  modify fun s => { s with mutators := s.mutators.set! i m }

/-- Lets a mutator act. -/
def act {α : Type} (i : Nat) (f : Mutator → HeapM (α × Mutator)) : SessionM α := do
  let m ← mutator i
  let (a, m') ← onHeap (f m)
  putMutator i (some m')
  return a

/-- Lets a mutator act without an answer. -/
def act_ (i : Nat) (f : Mutator → HeapM Mutator) : SessionM Unit :=
  act i fun m => do return ((), ← f m)

/-- The collector of a number. -/
def collector (i : Nat) : SessionM Collector := do
  match (← get).collectors[i]? with
  | some c => return c
  | none => throw (.refused .noSuchCollector)

end SessionM

namespace Session

/-- The most collectors a session grants. -/
def maxCollectors : Nat := 8

/-- The largest buffers a session grants. -/
def maxCapacity : Nat := 1048576

/-- A session with a fresh instance and one mutator. The flag says whether the client handles
exhausted memory. What is recorded meanwhile is dropped. -/
def start (settings : Settings) (handlesExhaustion : Bool) : Except Stop Session :=
  if maxCollectors < settings.collectors ∨ maxCapacity < settings.bufferCapacity then
    .error (.refused .tooLarge)
  else
    let heap := Heap.ofSettings settings
    let heap := { heap with
      client := { heap.client with outOfMemory := { state := handlesExhaustion } } }
    match Mutator.bind heap with
    | .error f _ => .error (.fault f)
    | .ok m heap => .ok { heap := { heap with log := [] }, mutators := #[some m] }

end Session

end DeferredCount
